import Mathlib.Data.List.Basic
import Mathlib.Data.List.Chain

/-!
# Logs whose entries name the hash of the one before

Two such logs that have the same hash at one position have the same entries up to there, as
long as no two of their entries share a hash.  So one hash stands for a whole history.
-/

namespace HashChain

variable {α κ : Type*}

/-- Every entry names the hash of the entry before it; what the first one names is free. -/
def Linked (hash named : α -> κ) (log : List α) : Prop :=
  log.IsChain fun entry next => named next = hash entry

variable {hash named : α -> κ} {log other : List α}

theorem Linked.append
    (linked : Linked hash named log) {next : α}
    (follows : ∀ last ∈ log.getLast?, named next = hash last) : Linked hash named (log ++ [next]) :=
  List.isChain_append.2 ⟨linked, .singleton next, by simpa using follows⟩

theorem Linked.named_eq
    (linked : Linked hash named log)
    {position : Nat} {entry next : α}
    (here : log[position]? = some entry)
    (after : log[position + 1]? = some next) : named next = hash entry := by
  obtain ⟨low, rfl⟩ := List.getElem?_eq_some_iff.1 after
  obtain ⟨_, rfl⟩ := List.getElem?_eq_some_iff.1 here
  exact List.isChain_iff_getElem.1 linked position low

/-- No entry of one log shares its hash with a different entry of the other. -/
def Separates (hash : α -> κ) (log other : List α) : Prop :=
  ∀ entry ∈ log, ∀ twin ∈ other, hash entry = hash twin -> entry = twin

/-- One equal hash makes equal histories. -/
theorem take_eq_of_hash_eq
    (linked : Linked hash named log) (otherLinked : Linked hash named other)
    (separates : Separates hash log other)
    {position : Nat} {entry twin : α}
    (here : log[position]? = some entry)
    (there : other[position]? = some twin)
    (same : hash entry = hash twin) : log.take (position + 1) = other.take (position + 1) := by
  have equal : entry = twin := separates entry (List.mem_of_getElem? here) twin
    (List.mem_of_getElem? there) same
  subst equal
  clear same
  induction position generalizing entry with
  | zero => rw [List.take_add_one, List.take_add_one, here, there]; rfl
  | succ position inductionHypothesis =>
      obtain ⟨low, -⟩ := List.getElem?_eq_some_iff.1 here
      obtain ⟨high, -⟩ := List.getElem?_eq_some_iff.1 there
      have before := List.getElem?_eq_getElem (Nat.lt_of_succ_lt low)
      have beforeThere := List.getElem?_eq_getElem (Nat.lt_of_succ_lt high)
      -- Both predecessors have the hash that this entry names.
      have sameHash := (linked.named_eq before here).symm.trans
        (otherLinked.named_eq beforeThere there)
      have equal := separates _ (List.mem_of_getElem? before) _
        (List.mem_of_getElem? beforeThere) sameHash
      rw [List.take_add_one, inductionHypothesis before (equal ▸ beforeThere), here, ← there,
        ← List.take_add_one]

/-- The last hash of a log is found at its place in another one exactly when the first is
the beginning of the second. -/
theorem prefix_iff_hash_eq
    (linked : Linked hash named log) (otherLinked : Linked hash named other)
    (separates : Separates hash log other) {last : α} (isLast : other.getLast? = some last) :
    other <+: log ↔ ∃ entry, log[other.length - 1]? = some entry ∧ hash entry = hash last := by
  have there : other[other.length - 1]? = some last := by
    rw [← List.getLast?_eq_getElem?]
    exact isLast
  obtain ⟨high, -⟩ := List.getElem?_eq_some_iff.1 there
  constructor
  · rintro ⟨more, rfl⟩
    exact ⟨last, by rw [List.getElem?_append_left high, there], rfl⟩
  · rintro ⟨entry, here, same⟩
    have equal := take_eq_of_hash_eq linked otherLinked separates here there same
    rw [Nat.sub_add_cancel (Nat.one_le_of_lt high), List.take_length] at equal
    rw [← equal]
    exact List.take_prefix _ log

end HashChain
