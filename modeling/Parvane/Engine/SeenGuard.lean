import Mathlib.Data.Finset.Basic
import Parvane.Engine.Keys
import Parvane.Foundation.Base64

/-!
# What was seen survives a restart

The guard of a client holds the fingerprints of what it opened twice: as a set, to look
them up, and as a queue, to know the oldest.  Beside it stands a list with the times, which
is written to disk.  A restart reads it back, and forgets what is older than a month.
-/

namespace Parvane
namespace Sign

open Wire

/-- The operations that were seen, as a set and from the oldest to the newest. -/
structure ReplayGuard where
  seen : Finset Bytes
  order : List Bytes
  cap : Nat
  deriving DecidableEq

namespace ReplayGuard

def new (cap : Nat) : ReplayGuard := ⟨∅, [], cap⟩

/-- The oldest ones make room, in the set as well. -/
def evict (room : Nat) (seen : Finset Bytes) : List Bytes -> Finset Bytes × List Bytes
  | [] => (seen, [])
  | old :: order =>
      if room < order.length + 1 then evict room (seen.erase old) order
      else (seen, old :: order)

def checkAndInsert (guard : ReplayGuard) (opId : Bytes) : Result ReplayGuard := do
  require (opId ∉ guard.seen) .duplicate
  let (seen, order) := evict (max guard.cap 1) (insert opId guard.seen) (guard.order ++ [opId])
  return { guard with seen := seen, order := order }

end ReplayGuard
end Sign

namespace Engine

open Wire

/-- A fingerprint is remembered for 31 days. -/
def seenWindowMs : Int64 := 31 * 24 * 3600 * 1000

def seenPackedEntry : Nat := 16 + 8

/-- The oldest items make room. -/
def dropOldest (room : Nat) : List α -> List α
  | [] => []
  | old :: items => if room < items.length + 1 then dropOldest room items else old :: items

/-- Pieces of one length; what is left over at the end is ignored. -/
def chunksExact (size : Nat) (bytes : Bytes) : List Bytes :=
  (List.range (bytes.length / size)).map fun index => (bytes.drop (index * size)).take size

/-- A number as eight bytes, the highest first. -/
def beBytes (number : Int64) : Bytes :=
  bigEndian64 number.toUInt64

def ofBeBytes (bytes : Bytes) : Int64 :=
  (UInt64.ofNat (ofLittleEndian bytes.reverse)).toInt64

/-- A difference of times that stays within the range. -/
def saturatingSub (first second : Int64) : Int :=
  max (-2 ^ 63) (min (2 ^ 63 - 1) (first.toInt - second.toInt))

/-- What a client remembers of what it opened. -/
structure Seen where
  guard : Sign.ReplayGuard
  list : List (SeenHash × Int64)

namespace Seen

def new : Seen := ⟨.new seenCap, []⟩

variable (seen : Seen)

/-- Remember a key, unless it was seen. -/
def insertOnce (library : Sign.Library) (nowMs : Int64) (key : Bytes) : Result Seen := do
  let hash := seenHash library key
  let guard ← seen.guard.checkAndInsert hash
  return ⟨guard, dropOldest seenCap (seen.list ++ [(hash, nowMs)])⟩

/-- The fingerprints that are not too old, as text. -/
def seenPacked (nowMs : Int64) : String :=
  Base64.encode (seen.list.flatMap fun entry =>
    if seenWindowMs.toInt < saturatingSub nowMs entry.2 then []
    else entry.1 ++ beBytes entry.2)

/-- Add a fingerprint with its time. -/
def unpackEntry (seen : Seen) (entry : Bytes) : Seen :=
  match seen.guard.checkAndInsert (entry.take 16) with
  | .ok guard => ⟨guard, seen.list ++ [(entry.take 16, ofBeBytes (entry.drop 16))]⟩
  | .error _ => seen

def seenUnpack (packed : Bytes) : Seen :=
  let unpacked := (chunksExact seenPackedEntry packed).foldl unpackEntry seen
  { unpacked with list := dropOldest seenCap unpacked.list }

/-- A new client that reads what an earlier one wrote. -/
def imported (packed : String) : Result Seen := do
  let bytes ← present (Base64.decode packed) .malformed
  return new.seenUnpack bytes

end Seen

/-! ## Pieces -/

theorem beBytes_length (number : Int64) : (beBytes number).length = 8 := by
  simp [beBytes]

theorem ofBeBytes_beBytes (number : Int64) : ofBeBytes (beBytes number) = number := by
  rw [ofBeBytes, beBytes, bigEndian64, List.reverse_reverse,
    ofLittleEndian_littleEndian 8 _ number.toUInt64.toNat_lt, UInt64.ofNat_toNat]
  exact Int64.toInt64_toUInt64 number

/-- Pieces of the right length can be told apart. -/
theorem chunksExact_flatten {size : Nat}
    (positive : 0 < size) (pieces : List Bytes) (fits : ∀ piece ∈ pieces, piece.length = size) :
    chunksExact size pieces.flatten = pieces := by
  induction pieces with
  | nil => simp [chunksExact]
  | cons piece pieces inductionHypothesis =>
      obtain ⟨here, later⟩ := List.forall_mem_cons.1 fits
      have rest := inductionHypothesis later
      unfold chunksExact at rest ⊢
      rw [List.flatten_cons, List.length_append, here, Nat.add_div_left _ positive,
        List.range_succ_eq_map, List.map_cons, List.map_map]
      congr 1
      · rw [Nat.zero_mul, List.drop_zero, List.take_append_of_le_length here.ge,
          List.take_of_length_le here.le]
      · refine Eq.trans ?_ rest
        apply List.map_congr_left
        intro index _
        rw [Function.comp_apply, Nat.succ_mul, Nat.add_comm, ← List.drop_drop,
          List.drop_append_of_le_length here.ge, List.drop_of_length_le here.le, List.nil_append]

theorem dropOldest_eq_drop (room : Nat) (items : List α) :
    dropOldest room items = items.drop (items.length - room) := by
  induction items with
  | nil => simp [dropOldest]
  | cons old items inductionHypothesis =>
      rw [dropOldest, List.length_cons]
      split
      · next full =>
          rw [inductionHypothesis, Nat.sub_add_comm (by omega), List.drop_succ_cons]
      · next enough => rw [Nat.sub_eq_zero_of_le (by omega), List.drop_zero]

theorem dropOldest_of_le {room : Nat} {items : List α} (enough : items.length ≤ room) :
    dropOldest room items = items := by
  rw [dropOldest_eq_drop, Nat.sub_eq_zero_of_le enough, List.drop_zero]

theorem length_dropOldest_le (room : Nat) (items : List α) :
    (dropOldest room items).length ≤ room := by
  rw [dropOldest_eq_drop, List.length_drop]
  omega

end Engine

/-! ## The guard -/

namespace Sign.ReplayGuard

open Wire Engine

/-- The set and the queue hold the same fingerprints, no more than there is room for. -/
structure Tidy (guard : ReplayGuard) : Prop where
  nodup : guard.order.Nodup
  mem_seen : ∀ hash, hash ∈ guard.seen ↔ hash ∈ guard.order
  small : guard.order.length ≤ max guard.cap 1

theorem Tidy.new (cap : Nat) : Tidy (ReplayGuard.new cap) where
  nodup := List.nodup_nil
  mem_seen hash := by simp [ReplayGuard.new]
  small := Nat.zero_le _

/-- What leaves the queue leaves the set. -/
theorem evict_spec
    (room : Nat) (seen : Finset Bytes) (order : List Bytes) (nodup : order.Nodup)
    (same : ∀ hash, hash ∈ seen ↔ hash ∈ order) :
    (evict room seen order).2 = dropOldest room order ∧
      ∀ hash, hash ∈ (evict room seen order).1 ↔ hash ∈ dropOldest room order := by
  induction order generalizing seen with
  | nil => exact ⟨rfl, same⟩
  | cons old order inductionHypothesis =>
      obtain ⟨absent, rest⟩ := List.nodup_cons.1 nodup
      rw [evict, dropOldest]
      split
      · apply inductionHypothesis _ rest
        intro hash
        rw [Finset.mem_erase, same, List.mem_cons]
        constructor
        · rintro ⟨different, isOld | later⟩
          · exact absurd isOld different
          · exact later
        · intro later
          refine ⟨?_, .inr later⟩
          rintro rfl
          exact absent later
      · exact ⟨rfl, same⟩

/-- A fingerprint is refused exactly if the queue holds it; otherwise it goes to its end. -/
theorem Tidy.checkAndInsert {guard : ReplayGuard}
    (tidy : Tidy guard) (hash : Bytes) :
    (hash ∈ guard.order ∧ guard.checkAndInsert hash = .error .duplicate) ∨
      (hash ∉ guard.order ∧ ∃ next, guard.checkAndInsert hash = .ok next ∧ Tidy next ∧
        next.order = dropOldest (max guard.cap 1) (guard.order ++ [hash]) ∧
        next.cap = guard.cap) := by
  by_cases held : hash ∈ guard.order
  · refine .inl ⟨held, ?_⟩
    have member := (tidy.mem_seen hash).2 held
    simp [ReplayGuard.checkAndInsert, member, require, bind, Except.bind]
  · refine .inr ⟨held, ?_⟩
    have absent : hash ∉ guard.seen := fun member => held ((tidy.mem_seen hash).1 member)
    have nodup : (guard.order ++ [hash]).Nodup := by
      refine tidy.nodup.append (List.nodup_singleton hash) ?_
      rw [List.disjoint_singleton]
      exact held
    obtain ⟨order_eq, mem_seen⟩ := evict_spec (max guard.cap 1) (insert hash guard.seen)
      (guard.order ++ [hash]) nodup fun other => by
        rw [Finset.mem_insert, tidy.mem_seen, List.mem_append, List.mem_singleton, or_comm]
    rcases evicted : evict (max guard.cap 1) (insert hash guard.seen) (guard.order ++ [hash])
      with ⟨seen, order⟩
    rw [evicted] at order_eq mem_seen
    change order = _ at order_eq
    refine ⟨⟨seen, order, guard.cap⟩, ?_, ⟨?_, ?_, ?_⟩, order_eq, rfl⟩
    · simp [ReplayGuard.checkAndInsert, absent, evicted, require, bind, Except.bind, pure,
        Except.pure]
    · change order.Nodup
      rw [order_eq, dropOldest_eq_drop]
      exact nodup.sublist (List.drop_sublist _ _)
    · intro other
      change other ∈ seen ↔ other ∈ order
      rw [order_eq]
      exact mem_seen other
    · change order.length ≤ _
      rw [order_eq]
      exact length_dropOldest_le _ _

/-- The queue alone is the guard of the client's model. -/
theorem Tidy.checkAndInsert_order {guard : ReplayGuard}
    (tidy : Tidy guard) (hash : Bytes) :
    (guard.checkAndInsert hash).map (fun next => (⟨next.order⟩ : Engine.ReplayGuard guard.cap)) =
      Engine.ReplayGuard.checkAndInsert ⟨guard.order⟩ hash := by
  rcases tidy.checkAndInsert hash with ⟨held, refused⟩ | ⟨absent, next, inserted, -, order_eq, -⟩
  · rw [refused, Engine.ReplayGuard.checkAndInsert_of_seen _ (List.contains_iff_mem.2 held)]
    rfl
  · have isNew : Engine.ReplayGuard.contains (⟨guard.order⟩ : Engine.ReplayGuard guard.cap) hash =
        false := by
      rw [Engine.ReplayGuard.contains, Bool.eq_false_iff, ne_eq, List.contains_iff_mem]
      exact absent
    rw [inserted, Engine.ReplayGuard.checkAndInsert_of_new _ isNew, Engine.ReplayGuard.insert,
      keepLast, List.take_reverse, List.reverse_reverse, ← dropOldest_eq_drop, ← order_eq]
    rfl

/-- Offer an operation to a guard, and note it if it is taken. -/
def offer (state : ReplayGuard × List Bytes) (opId : Bytes) : ReplayGuard × List Bytes :=
  match state.1.checkAndInsert opId with
  | .ok next => (next, state.2 ++ [opId])
  | .error _ => state

/-- The queue holds the last operations that were taken, as many as there is room for, and
among that many and one more none occurs twice. -/
structure Recent (cap : Nat) (state : ReplayGuard × List Bytes) : Prop where
  tidy : state.1.Tidy
  cap_eq : state.1.cap = cap
  order_eq : state.1.order = dropOldest (max cap 1) state.2
  nodup : ∀ window, window <:+: state.2 -> window.length ≤ max cap 1 + 1 -> window.Nodup

theorem Recent.offer {cap : Nat} {state : ReplayGuard × List Bytes}
    (recent : Recent cap state)
    (opId : Bytes) : Recent cap (offer state opId) := by
  rw [ReplayGuard.offer]
  rcases recent.tidy.checkAndInsert opId with ⟨-, refused⟩ | ⟨absent, next, taken, tidy, order, cap⟩
  · rw [refused]
    exact recent
  · rw [taken]
    rw [recent.order_eq] at absent
    refine ⟨tidy, cap.trans recent.cap_eq, ?_, ?_⟩
    · change next.order = _
      rw [order, recent.order_eq, recent.cap_eq]
      simp only [dropOldest_eq_drop, List.length_append, List.length_drop, List.length_singleton]
      rw [← List.drop_append_of_le_length (by omega), List.drop_drop]
      congr 1
      omega
    · intro window inside short
      rcases List.infix_concat_iff.1 inside with last | before
      · rcases List.suffix_concat_iff.1 last with rfl | ⟨earlier, rfl, suffix⟩
        · exact List.nodup_nil
        · rw [List.length_append, List.length_singleton, Nat.add_le_add_iff_right] at short
          refine (recent.nodup _ suffix.isInfix (by omega)).append (List.nodup_singleton opId) ?_
          rw [List.disjoint_singleton]
          intro member
          rw [dropOldest_eq_drop] at absent
          exact absent ((List.suffix_of_suffix_length_le suffix (List.drop_suffix _ _)
            (by rw [List.length_drop]; have := suffix.length_le; omega)).subset member)
      · exact recent.nodup window before short

/-- In every run the guard refuses the last operations that it took, as many as it has room
for, and nothing else.  Its queue alone answers the same. -/
theorem checkAndInsert_run (cap : Nat) (opIds : List Bytes) (opId : Bytes) :
    ∃ guard taken, opIds.foldl offer (new cap, []) = (guard, taken) ∧
      (guard.checkAndInsert opId = .error .duplicate ↔
        opId ∈ taken.drop (taken.length - max cap 1)) ∧
      (∀ window, window <:+: taken -> window.length ≤ max cap 1 + 1 -> window.Nodup) ∧
      (guard.checkAndInsert opId).map (fun next => (⟨next.order⟩ : Engine.ReplayGuard cap)) =
        Engine.ReplayGuard.checkAndInsert ⟨guard.order⟩ opId := by
  have recent : Recent cap (opIds.foldl offer (new cap, [])) := by
    refine List.foldlRecOn opIds offer ⟨.new cap, rfl, rfl, ?_⟩ fun _ recent opId _ =>
      recent.offer opId
    rintro window inside -
    rw [List.infix_nil.1 inside]
    exact List.nodup_nil
  refine ⟨_, _, rfl, ?_, recent.nodup, ?_⟩
  · rw [← dropOldest_eq_drop, ← recent.order_eq]
    rcases recent.tidy.checkAndInsert opId with ⟨held, refused⟩ | ⟨absent, next, taken, -⟩
    · exact iff_of_true refused held
    · exact iff_of_false (by simp [taken]) absent
  · generalize opIds.foldl offer (new cap, []) = state at recent ⊢
    obtain rfl := recent.cap_eq
    exact recent.tidy.checkAndInsert_order opId

end Sign.ReplayGuard

/-! ## The list with the times -/

namespace Engine

open Wire

theorem max_seenCap : max seenCap 1 = seenCap :=
  Nat.max_eq_left (by unfold seenCap; omega)

theorem seenHash_length (library : Sign.Library) (key : Bytes) :
    (seenHash library key).length = 16 := by
  rw [seenHash, List.length_take, (library.sha256 key).length_eq]
  rfl

namespace Seen

/-- The set, the queue and the list hold the same fingerprints. -/
structure Tidy (seen : Seen) : Prop where
  guard : seen.guard.Tidy
  cap_eq : seen.guard.cap = seenCap
  order_eq : seen.guard.order = seen.list.map Prod.fst
  long : ∀ entry ∈ seen.list, entry.1.length = 16

theorem Tidy.new : Tidy Seen.new where
  guard := .new seenCap
  cap_eq := rfl
  order_eq := rfl
  long entry member := by cases member

theorem Tidy.length_le {seen : Seen} (tidy : Tidy seen) : seen.list.length ≤ seenCap := by
  have small := tidy.guard.small
  rwa [tidy.order_eq, tidy.cap_eq, List.length_map, max_seenCap] at small

/-- A key is refused exactly if its fingerprint is in the list; otherwise it goes to the end. -/
theorem Tidy.insertOnce {library : Sign.Library} {seen : Seen}
    (tidy : Tidy seen) (nowMs : Int64) (key : Bytes) :
    (seenHash library key ∈ seen.list.map Prod.fst ∧
        seen.insertOnce library nowMs key = .error .duplicate) ∨
      (seenHash library key ∉ seen.list.map Prod.fst ∧
        ∃ next, seen.insertOnce library nowMs key = .ok next ∧ Tidy next ∧
          next.list = dropOldest seenCap (seen.list ++ [(seenHash library key, nowMs)])) := by
  rw [← tidy.order_eq]
  rcases tidy.guard.checkAndInsert (seenHash library key) with
    ⟨held, refused⟩ | ⟨absent, guard, inserted, guardTidy, order_eq, cap_eq⟩
  · refine .inl ⟨held, ?_⟩
    simp [Seen.insertOnce, refused, bind, Except.bind]
  · refine .inr ⟨absent, ⟨guard, dropOldest seenCap (seen.list ++ [(_, nowMs)])⟩, ?_,
      ⟨guardTidy, cap_eq.trans tidy.cap_eq, ?_, ?_⟩, rfl⟩
    · simp [Seen.insertOnce, inserted, bind, Except.bind, pure, Except.pure]
    · change guard.order = _
      rw [order_eq, tidy.order_eq, tidy.cap_eq, dropOldest_eq_drop, dropOldest_eq_drop,
        List.map_drop, List.map_append, List.length_append, List.length_append, List.length_map,
        max_seenCap]
      rfl
    · intro entry member
      change entry ∈ dropOldest seenCap _ at member
      rw [dropOldest_eq_drop] at member
      rcases List.mem_append.1 (List.mem_of_mem_drop member) with before | isNew
      · exact tidy.long entry before
      · rw [List.mem_singleton.1 isNew]
        exact seenHash_length library key

/-- What is remembered is new, and comes last. -/
theorem Tidy.of_insertOnce {library : Sign.Library} {seen next : Seen} {nowMs : Int64} {key : Bytes}
    (tidy : Tidy seen) (inserted : seen.insertOnce library nowMs key = .ok next) :
    seenHash library key ∉ seen.list.map Prod.fst ∧ Tidy next ∧
      next.list = dropOldest seenCap (seen.list ++ [(seenHash library key, nowMs)]) := by
  rcases Seen.Tidy.insertOnce tidy nowMs key with
    ⟨-, refused⟩ | ⟨absent, other, added, otherTidy, list_eq⟩
  · cases refused.symm.trans inserted
  · cases added.symm.trans inserted
    exact ⟨absent, otherTidy, list_eq⟩

/-! ## Restarts -/

/-- What is young enough to be written. -/
def young (seen : Seen) (nowMs : Int64) : List (SeenHash × Int64) :=
  seen.list.filter fun entry => ¬ seenWindowMs.toInt < saturatingSub nowMs entry.2

/-- One entry on disk. -/
def entryBytes (entry : SeenHash × Int64) : Bytes :=
  entry.1 ++ beBytes entry.2

theorem seenPacked_eq (seen : Seen) (nowMs : Int64) :
    seen.seenPacked nowMs = Base64.encode ((seen.young nowMs).map entryBytes).flatten := by
  rw [seenPacked, young]
  congr 1
  induction seen.list with
  | nil => rfl
  | cons entry entries inductionHypothesis =>
      rw [List.flatMap_cons, inductionHypothesis]
      by_cases old : seenWindowMs.toInt < saturatingSub nowMs entry.2
      · rw [if_pos old, List.filter_cons_of_neg (by simpa using old), List.nil_append]
      · rw [if_neg old, List.filter_cons_of_pos (by simpa using old), List.map_cons,
          List.flatten_cons, entryBytes]

/-- Entries with fingerprints of their own are added one after the other. -/
theorem foldl_unpackEntry
    (entries : List (SeenHash × Int64))
    (seen : Seen) (tidy : Tidy seen)
    (nodup : ((seen.list ++ entries).map Prod.fst).Nodup)
    (small : (seen.list ++ entries).length ≤ seenCap)
    (long : ∀ entry ∈ entries, entry.1.length = 16) :
    ∃ next, (entries.map entryBytes).foldl unpackEntry seen = next ∧ Tidy next ∧
      next.list = seen.list ++ entries := by
  induction entries generalizing seen with
  | nil => exact ⟨seen, rfl, tidy, by rw [List.append_nil]⟩
  | cons entry entries inductionHypothesis =>
      obtain ⟨here, later⟩ := List.forall_mem_cons.1 long
      have hash_eq : (entryBytes entry).take 16 = entry.1 := by
        rw [entryBytes, List.take_append_of_le_length here.ge, List.take_of_length_le here.le]
      have time_eq : ofBeBytes ((entryBytes entry).drop 16) = entry.2 := by
        rw [entryBytes, List.drop_append_of_le_length here.ge, List.drop_of_length_le here.le,
          List.nil_append, ofBeBytes_beBytes]
      have absent : entry.1 ∉ seen.guard.order := by
        rw [tidy.order_eq]
        intro held
        rw [List.map_append, List.map_cons, List.nodup_append] at nodup
        exact nodup.2.2 _ held _ List.mem_cons_self rfl
      rcases tidy.guard.checkAndInsert entry.1 with
        ⟨held, -⟩ | ⟨-, guard, inserted, guardTidy, order_eq, cap_eq⟩
      · exact absurd held absent
      · have added : unpackEntry seen (entryBytes entry) = ⟨guard, seen.list ++ [entry]⟩ := by
          rw [unpackEntry, hash_eq, inserted, time_eq]
        have room : (seen.list ++ [entry]).length ≤ seenCap := by
          rw [List.length_append, List.length_cons] at small
          rw [List.length_append, List.length_singleton]
          omega
        have addedTidy : Tidy ⟨guard, seen.list ++ [entry]⟩ := by
          refine ⟨guardTidy, cap_eq.trans tidy.cap_eq, ?_, ?_⟩
          · change guard.order = _
            rw [order_eq, tidy.order_eq, tidy.cap_eq, List.map_append, List.map_singleton,
              max_seenCap, dropOldest_of_le]
            rw [List.length_append, List.length_singleton] at room
            rwa [List.length_append, List.length_map, List.length_singleton]
          · intro other member
            rcases List.mem_append.1 member with before | isNew
            · exact tidy.long other before
            · rwa [List.mem_singleton.1 isNew]
        have moved : seen.list ++ entry :: entries = (seen.list ++ [entry]) ++ entries := by
          rw [List.append_assoc, List.singleton_append]
        rw [moved] at nodup small
        rw [List.map_cons, List.foldl_cons, added, moved]
        exact inductionHypothesis ⟨guard, seen.list ++ [entry]⟩ addedTidy nodup small later

/-- A restart keeps what is young, in its order. -/
theorem Tidy.restart {seen : Seen} (tidy : Tidy seen) (nowMs : Int64) :
    ∃ next, imported (seen.seenPacked nowMs) = .ok next ∧ Tidy next ∧
      next.list = seen.young nowMs := by
  have sublist : (seen.young nowMs).Sublist seen.list := List.filter_sublist
  have nodup : ((seen.young nowMs).map Prod.fst).Nodup := by
    have all := tidy.guard.nodup
    rw [tidy.order_eq] at all
    exact all.sublist (sublist.map Prod.fst)
  have small : (seen.young nowMs).length ≤ seenCap := sublist.length_le.trans tidy.length_le
  have long : ∀ entry ∈ seen.young nowMs, entry.1.length = 16 := fun entry member =>
    tidy.long entry (sublist.subset member)
  obtain ⟨next, folded, nextTidy, list_eq⟩ :=
    foldl_unpackEntry (seen.young nowMs) Seen.new .new nodup small long
  rw [show Seen.new.list = [] from rfl, List.nil_append] at list_eq
  have pieces : chunksExact seenPackedEntry ((seen.young nowMs).map entryBytes).flatten =
      (seen.young nowMs).map entryBytes := by
    apply chunksExact_flatten (by decide)
    intro piece member
    obtain ⟨entry, held, rfl⟩ := List.mem_map.1 member
    rw [entryBytes, List.length_append, long entry held, beBytes_length]
    rfl
  refine ⟨next, ?_, nextTidy, list_eq⟩
  rw [imported, seenPacked_eq, Base64.decode_encode]
  simp only [present, seenUnpack, pieces, folded, bind, Except.bind, pure, Except.pure]
  rw [dropOldest_of_le (by rw [list_eq]; exact small)]

theorem Tidy.of_imported {seen next : Seen} {nowMs : Int64}
    (tidy : Tidy seen)
    (imported : imported (seen.seenPacked nowMs) = .ok next) :
    Tidy next ∧ next.list = seen.young nowMs := by
  obtain ⟨other, read, otherTidy, list_eq⟩ := tidy.restart nowMs
  cases read.symm.trans imported
  exact ⟨otherTidy, list_eq⟩

end Seen

/-! ## Runs -/

/-- What happens to a client that opens operations. -/
inductive SeenLabel
  | inserted (key : Bytes) (nowMs : Int64) (answer : Result Unit)
  | restarted (nowMs : Int64)

/-- A refused key changes nothing; a restart reads what is written at that time. -/
inductive SeenStep (library : Sign.Library) : Seen -> SeenLabel -> Seen -> Prop
  | insert {seen next : Seen} {nowMs : Int64} {key : Bytes}
      (inserted : seen.insertOnce library nowMs key = .ok next) :
      SeenStep library seen (.inserted key nowMs (.ok ())) next
  | refuse {seen : Seen} {nowMs : Int64} {key : Bytes} {error : ProtoError}
      (refused : seen.insertOnce library nowMs key = .error error) :
      SeenStep library seen (.inserted key nowMs (.error error)) seen
  | restart {seen next : Seen} {nowMs : Int64}
      (imported : Seen.imported (seen.seenPacked nowMs) = .ok next) :
      SeenStep library seen (.restarted nowMs) next

/-- Another key was remembered. -/
def SeenLabel.isOther (key : Bytes) : SeenLabel -> Bool
  | .inserted other _ (.ok ()) => other != key
  | _ => false

/-- The key is too old for none of the restarts. -/
def WithinWindow (nowMs : Int64) (labels : List SeenLabel) : Prop :=
  ∀ restartMs, .restarted restartMs ∈ labels ->
    restartMs.toInt - nowMs.toInt ≤ seenWindowMs.toInt

/-- No two keys of the run have the same fingerprint. -/
def NoCollisions (library : Sign.Library) (labels : List SeenLabel) : Prop :=
  ∀ first firstMs firstAnswer second secondMs secondAnswer,
    .inserted first firstMs firstAnswer ∈ labels ->
      .inserted second secondMs secondAnswer ∈ labels ->
        seenHash library first = seenHash library second -> first = second

section

variable {library : Sign.Library} {seen next : Seen} {labels : List SeenLabel}

theorem SeenStep.tidy {label : SeenLabel}
    (step : SeenStep library seen label next)
    (tidy : seen.Tidy) : next.Tidy := by
  cases step with
  | insert inserted => exact (tidy.of_insertOnce inserted).2.1
  | refuse refused => exact tidy
  | restart imported => exact (tidy.of_imported imported).1

theorem tidy_of_run (run : Run (SeenStep library) seen labels next) (tidy : seen.Tidy) :
    next.Tidy :=
  run.invariant (fun _ _ _ _ step => step.tidy) tidy

/-- The fingerprint is in the list, and at most so many follow it. -/
def Kept (hash : SeenHash) (nowMs : Int64) (count : Nat) (seen : Seen) : Prop :=
  ∃ earlier later, seen.list = earlier ++ (hash, nowMs) :: later ∧ later.length ≤ count

variable {nowMs : Int64}

theorem Kept.mem {hash : SeenHash} {count : Nat}
    (kept : Kept hash nowMs count seen) : hash ∈ seen.list.map Prod.fst := by
  obtain ⟨earlier, later, split, -⟩ := kept
  rw [split]
  simp

variable {key : Bytes}

/-- The newest fingerprint is kept. -/
theorem kept_of_insert
    (tidy : seen.Tidy) (inserted : seen.insertOnce library nowMs key = .ok next) :
    Kept (seenHash library key) nowMs 0 next := by
  refine ⟨seen.list.drop (seen.list.length + 1 - seenCap), [], ?_, le_rfl⟩
  have room : seen.list.length + 1 - seenCap ≤ seen.list.length := by
    have positive : 0 < seenCap := by unfold seenCap; omega
    omega
  rw [(tidy.of_insertOnce inserted).2.2, dropOldest_eq_drop, List.length_append,
    List.length_singleton, List.drop_append_of_le_length room]

/-- One more fingerprint does not push it out while there is room. -/
theorem Kept.insert {nowMs insertMs : Int64} {hash : SeenHash} {count : Nat}
    (kept : Kept hash nowMs count seen) (tidy : seen.Tidy)
    (inserted : seen.insertOnce library insertMs key = .ok next)
    (room : count + 1 < seenCap) : Kept hash nowMs (count + 1) next := by
  obtain ⟨earlier, later, split, few⟩ := kept
  have small := tidy.length_le
  rw [split, List.length_append, List.length_cons] at small
  refine ⟨earlier.drop (seen.list.length + 1 - seenCap),
    later ++ [(seenHash library key, insertMs)], ?_, ?_⟩
  · have enough : seen.list.length + 1 - seenCap ≤ earlier.length := by
      rw [split, List.length_append, List.length_cons]
      omega
    rw [(tidy.of_insertOnce inserted).2.2, dropOldest_eq_drop, List.length_append,
      List.length_singleton]
    rw [split] at enough ⊢
    rw [List.append_assoc, List.cons_append, List.drop_append_of_le_length enough]
  · rw [List.length_append, List.length_singleton]
    omega

/-- A restart keeps what is not too old. -/
theorem Kept.restart {nowMs restartMs : Int64} {hash : SeenHash} {count : Nat}
    (kept : Kept hash nowMs count seen) (tidy : seen.Tidy)
    (imported : Seen.imported (seen.seenPacked restartMs) = .ok next)
    (within : restartMs.toInt - nowMs.toInt ≤ seenWindowMs.toInt) : Kept hash nowMs count next := by
  obtain ⟨earlier, later, split, few⟩ := kept
  have isYoung : ¬ seenWindowMs.toInt < saturatingSub restartMs nowMs := by
    have window : seenWindowMs.toInt = 2678400000 := by decide
    rw [saturatingSub]
    omega
  let fresh (entry : SeenHash × Int64) : Bool :=
    ¬ seenWindowMs.toInt < saturatingSub restartMs entry.2
  refine ⟨earlier.filter fresh, later.filter fresh, ?_, (List.length_filter_le _ _).trans few⟩
  have isFresh : fresh (hash, nowMs) = true := decide_eq_true isYoung
  rw [(tidy.of_imported imported).2, Seen.young, split, List.filter_append,
    List.filter_cons_of_pos isFresh]

/-- The key stays remembered while it is not too old and not too many others come. -/
theorem Kept.run {count : Nat}
    (kept : Kept (seenHash library key) nowMs count seen)
    (tidy : seen.Tidy)
    (run : Run (SeenStep library) seen labels next)
    (room : count + labels.countP (SeenLabel.isOther key) < seenCap)
    (within : WithinWindow nowMs labels) : seenHash library key ∈ next.list.map Prod.fst := by
  induction run generalizing count with
  | nil seen => exact kept.mem
  | @cons seen middle final label labels first rest inductionHypothesis =>
      have later : WithinWindow nowMs labels := fun restartMs member =>
        within restartMs (List.mem_cons_of_mem _ member)
      rw [List.countP_cons] at room
      have middleTidy := first.tidy tidy
      cases first with
      | insert inserted =>
          next insertMs other =>
          -- The key itself is refused as long as it is kept.
          have different : other ≠ key := by
            rintro rfl
            exact (tidy.of_insertOnce inserted).1 kept.mem
          rw [SeenLabel.isOther, if_pos (bne_iff_ne.2 different)] at room
          have here := kept.insert tidy inserted (by omega)
          exact inductionHypothesis here middleTidy (by omega) later
      | refuse refused => exact inductionHypothesis kept middleTidy (by omega) later
      | restart imported =>
          have here := kept.restart tidy imported (within _ List.mem_cons_self)
          exact inductionHypothesis here middleTidy (by omega) later

/-- A key whose fingerprint is in the list is refused. -/
theorem SeenStep.answer_of_mem {answer : Result Unit}
    (step : SeenStep library seen (.inserted key nowMs answer) next)
    (tidy : seen.Tidy)
    (held : seenHash library key ∈ seen.list.map Prod.fst) : answer = .error .duplicate := by
  cases step with
  | insert inserted => exact absurd held (tidy.of_insertOnce inserted).1
  | refuse refused =>
      rcases Seen.Tidy.insertOnce tidy nowMs key with ⟨-, isDuplicate⟩ | ⟨absent, -⟩
      · cases isDuplicate.symm.trans refused
        rfl
      · exact absurd held absent

/-- Any other key is not. -/
theorem SeenStep.answer_of_not_mem {answer : Result Unit}
    (step : SeenStep library seen (.inserted key nowMs answer) next)
    (tidy : seen.Tidy)
    (absent : seenHash library key ∉ seen.list.map Prod.fst) : answer = .ok () := by
  cases step with
  | insert _ => rfl
  | refuse refused =>
      rcases Seen.Tidy.insertOnce tidy nowMs key with ⟨held, -⟩ | ⟨-, other, added, -⟩
      · exact absurd held absent
      · cases added.symm.trans refused

/-- Every fingerprint in the list is one of a key that was inserted. -/
theorem mem_list_of_run
    (run : Run (SeenStep library) seen labels next)
    (tidy : seen.Tidy) (hash : SeenHash) (held : hash ∈ next.list.map Prod.fst) :
    hash ∈ seen.list.map Prod.fst ∨
      ∃ key nowMs, .inserted key nowMs (.ok ()) ∈ labels ∧ seenHash library key = hash := by
  induction run with
  | nil seen => exact .inl held
  | @cons seen middle final label labels first rest inductionHypothesis =>
      rcases inductionHypothesis (first.tidy tidy) held with before | ⟨key, nowMs, member, same⟩
      · cases first with
        | insert inserted =>
            rw [(tidy.of_insertOnce inserted).2.2, dropOldest_eq_drop, List.map_drop] at before
            have all := List.mem_of_mem_drop before
            rw [List.map_append, List.mem_append, List.map_singleton, List.mem_singleton] at all
            rcases all with old | rfl
            · exact .inl old
            · exact .inr ⟨_, _, List.mem_cons_self, rfl⟩
        | refuse refused => exact .inl before
        | restart imported =>
            rw [(tidy.of_imported imported).2] at before
            exact .inl ((List.filter_sublist.map Prod.fst).subset before)
      · exact .inr ⟨key, nowMs, List.mem_cons_of_mem _ member, same⟩

end

/-- A client knows its duplicates across restarts.  The set, the queue and the list always
hold the same fingerprints; a restart never fails; a key that was remembered is refused as
long as fewer than the bound of others were remembered since and no restart came when it
was too old; and a key that was never remembered is not refused. -/
theorem knows_duplicates
    (library : Sign.Library)
    (labels : List SeenLabel)
    (seen : Seen)
    (run : Run (SeenStep library) .new labels seen) :
    (∀ hash, (hash ∈ seen.guard.seen ↔ hash ∈ seen.guard.order) ∧
        (hash ∈ seen.guard.order ↔ hash ∈ seen.list.map Prod.fst)) ∧
      (∀ nowMs, ∃ next, Seen.imported (seen.seenPacked nowMs) = .ok next) ∧
      (∀ before between after key nowMs laterMs answer,
        labels = before ++ .inserted key nowMs (.ok ()) ::
          (between ++ .inserted key laterMs answer :: after) ->
        between.countP (SeenLabel.isOther key) < seenCap -> WithinWindow nowMs between ->
          answer = .error .duplicate) ∧
      (NoCollisions library labels ->
        ∀ before key nowMs answer after, labels = before ++ .inserted key nowMs answer :: after ->
          (∀ otherMs, .inserted key otherMs (.ok ()) ∉ before) -> answer = .ok ()) := by
  have tidy := tidy_of_run run .new
  refine ⟨?_, ?_, ?_, ?_⟩
  · intro hash
    refine ⟨tidy.guard.mem_seen hash, ?_⟩
    rw [tidy.order_eq]
  · intro nowMs
    obtain ⟨next, read, -⟩ := tidy.restart nowMs
    exact ⟨next, read⟩
  · intro before between after key nowMs laterMs answer split few within
    rw [split] at run
    obtain ⟨first, earlier, rest⟩ := run.exists_of_append
    have firstTidy := tidy_of_run earlier .new
    cases rest with
    | cons one rest =>
        have secondTidy := one.tidy firstTidy
        obtain ⟨third, during, last⟩ := rest.exists_of_append
        cases one with
        | insert inserted =>
            have held := (kept_of_insert firstTidy inserted).run secondTidy during
              (by omega) within
            cases last with
            | cons two _ => exact two.answer_of_mem (tidy_of_run during secondTidy) held
  · intro noCollisions before key nowMs answer after split isNew
    rw [split] at run noCollisions
    obtain ⟨first, earlier, rest⟩ := run.exists_of_append
    cases rest with
    | cons one _ =>
        apply one.answer_of_not_mem (tidy_of_run earlier .new)
        intro held
        rcases mem_list_of_run earlier .new _ held with old | ⟨other, otherMs, member, same⟩
        · cases old
        · have equal := noCollisions other otherMs (.ok ()) key nowMs answer
            (List.mem_append_left _ member) (by simp) same
          rw [equal] at member
          exact isNew otherMs member

/-- The SHA-256 digest of the byte one. -/
def digestLibrary : Sign.Library where
  sha256 _ := ⟨[75, 245, 18, 47, 52, 69, 84, 197, 59, 222, 46, 187, 140, 210, 183, 227, 209, 96,
    10, 214, 49, 195, 133, 165, 215, 204, 226, 60, 119, 133, 69, 154], rfl⟩
  isVerifyingKey _ := false
  verifyStrict _ _ _ := false
  decodeOpBody _ := .error .malformed

/-- A key comes again after a restart. -/
theorem knows_duplicates_sample :
    ∃ seen, Run (SeenStep digestLibrary) .new
        [.inserted [1] 0 (.ok ()), .restarted 5, .inserted [1] 6 (.error .duplicate)] seen ∧
      ∀ nowMs, ∃ next, Seen.imported (seen.seenPacked nowMs) = .ok next := by
  have first : Seen.new.insertOnce digestLibrary 0 [1] =
      .ok ⟨⟨{seenHash digestLibrary [1]}, [seenHash digestLibrary [1]], seenCap⟩,
        [(seenHash digestLibrary [1], 0)]⟩ := by
    rfl
  have second : Seen.imported (Seen.seenPacked
      ⟨⟨{seenHash digestLibrary [1]}, [seenHash digestLibrary [1]], seenCap⟩,
        [(seenHash digestLibrary [1], 0)]⟩ 5) =
      .ok ⟨⟨{seenHash digestLibrary [1]}, [seenHash digestLibrary [1]], seenCap⟩,
        [(seenHash digestLibrary [1], 0)]⟩ := by
    rfl
  have third : Seen.insertOnce
      ⟨⟨{seenHash digestLibrary [1]}, [seenHash digestLibrary [1]], seenCap⟩,
        [(seenHash digestLibrary [1], 0)]⟩ digestLibrary 6 [1] = .error .duplicate := by
    rfl
  have run : Run (SeenStep digestLibrary) .new _ _ :=
    .cons (.insert first) (.cons (.restart second) (.cons (.refuse third) (.nil _)))
  exact ⟨_, run, (knows_duplicates digestLibrary _ _ run).2.1⟩

end Engine
end Parvane
