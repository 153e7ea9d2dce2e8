import Mathlib.Data.Finset.Max
import Parvane.Engine.Sharing

/-!
# The tokens of a client

For each server a client has a stock of tokens.  To pay a delivery is to take the token that
expires first out of the stock of the recipient's server; a token that was not used is put into
the stock of the first server that lists its key.
-/

namespace Parvane.Engine

open Wire Sign Identity Parvane.Group Fallible

/-! ## Stocks -/

/-- The server whose tokens a delivery to a user costs; none stands for the own server. -/
def issuerOf (client : Client) (user : String) : Option String :=
  if isHome client (serverOf user) then none else some (serverOf user)

/-- The tokens of a server. -/
def Client.stockOf (client : Client) : Option String -> List Stocked
  | none => client.stock
  | some domain =>
      ((client.foreignTokens[domain]? : Option ForeignTokens).map ForeignTokens.stock).getD []

/-- The token does not expire at once. -/
def isUnexpired (now validUntilMs : Int64) : Bool :=
  min (now.toInt + expiryMarginMs) Int64.maxValue.toInt < validUntilMs.toInt

/-- The tokens of a stock that do not expire at once. -/
def unexpired (now : Int64) (stock : List Stocked) : Multiset AnonToken :=
  (prune now stock).map Stocked.token

theorem prune_eq (now : Int64) (stock : List Stocked) :
    prune now stock = stock.filter fun stocked => isUnexpired now stocked.validUntilMs := rfl

theorem prune_append (now : Int64) (first second : List Stocked) :
    prune now (first ++ second) = prune now first ++ prune now second :=
  List.filter_append ..

theorem prune_perm {now : Int64} {first second : List Stocked} (same : first.Perm second) :
    (prune now first).Perm (prune now second) :=
  same.filter _

theorem prune_prune (now : Int64) (stock : List Stocked) :
    prune now (prune now stock) = prune now stock := by
  rw [prune_eq, prune_eq, List.filter_filter]
  simp only [Bool.and_self]

theorem unexpired_append (now : Int64) (first second : List Stocked) :
    unexpired now (first ++ second) = unexpired now first + unexpired now second := by
  rw [unexpired, prune_append, List.map_append]
  rfl

theorem unexpired_perm {now : Int64} {first second : List Stocked} (same : first.Perm second) :
    unexpired now first = unexpired now second :=
  Multiset.coe_eq_coe.2 ((prune_perm same).map _)

theorem unexpired_prune (now : Int64) (stock : List Stocked) :
    unexpired now (prune now stock) = unexpired now stock := by
  rw [unexpired, prune_prune, unexpired]

theorem unexpired_singleton (now : Int64) (stocked : Stocked) :
    unexpired now [stocked] =
      if isUnexpired now stocked.validUntilMs = true then {stocked.token} else 0 := by
  rw [unexpired, prune_eq, List.filter_singleton]
  cases isUnexpired now stocked.validUntilMs <;> rfl

/-! ## Taking a token -/

theorem swapRemove_perm {items : List α} {index : Nat} {item : α}
    (there : items[index]? = some item) : items.Perm (item :: swapRemove items index) := by
  obtain ⟨inside, rfl⟩ := List.getElem?_eq_some_iff.1 there
  rcases items.eq_nil_or_concat' with rfl | ⟨front, last, rfl⟩
  · cases inside
  rw [swapRemove, List.getLast?_concat]
  dsimp only
  rw [List.length_append, List.length_singleton] at inside
  by_cases before : index < front.length
  · have split : front = front.take index ++ front[index] :: front.drop (index + 1) := by
      rw [List.getElem_cons_drop, List.take_append_drop]
    rw [List.set_append_left _ _ before, List.dropLast_concat, List.getElem_append_left before,
      List.set_eq_take_append_cons_drop, if_pos before]
    have others : front.Perm (front[index] :: (front.take index ++ front.drop (index + 1))) := by
      nth_rewrite 1 [split]
      exact List.perm_middle
    calc (front ++ [last]).Perm (last :: front) := List.perm_append_comm
      _ |>.Perm (last :: front[index] :: (front.take index ++ front.drop (index + 1))) :=
        others.cons last
      _ |>.Perm (front[index] :: last :: (front.take index ++ front.drop (index + 1))) :=
        List.Perm.swap _ _ _
      _ |>.Perm (front[index] :: (front.take index ++ last :: front.drop (index + 1))) :=
        List.perm_middle.symm.cons _
  · obtain rfl : index = front.length := by omega
    rw [List.set_append_right _ _ (Nat.le_refl _), Nat.sub_self, List.set_cons_zero,
      List.dropLast_concat, List.getElem_concat_length rfl]
    exact List.perm_append_comm

/-- A token is taken out of those that do not expire at once, if there is one. -/
theorem takeToken_cases (now : Int64) (stock : List Stocked) :
    (prune now stock = [] ∧ takeToken now stock = (none, [])) ∨
      ∃ first rest, takeToken now stock = (some first.token, rest) ∧
        (prune now stock).Perm (first :: rest) := by
  unfold takeToken
  dsimp only
  cases taken : (prune now stock)[(prune now stock).findIdx fun stocked =>
      (prune now stock).all fun other => stocked.validUntilMs ≤ other.validUntilMs]? with
  | some first => exact .inr ⟨first, _, rfl, swapRemove_perm taken⟩
  | none =>
      refine .inl ?_
      have empty : prune now stock = [] := by
        by_contra inhabited
        -- A token that expires first is found.
        obtain ⟨least, member, isLeast⟩ := Multiset.exists_min_image
          (fun stocked : Stocked => stocked.validUntilMs.toInt)
          (s := (prune now stock : Multiset Stocked)) (by simpa using inhabited)
        apply not_lt.2 (List.getElem?_eq_none_iff.1 taken)
        apply List.findIdx_lt_length_of_exists
        refine ⟨least, member, List.all_eq_true.2 fun other inside => ?_⟩
        exact decide_eq_true (Int64.le_iff_toInt_le.2 (isLeast other inside))
      rw [empty]
      exact ⟨rfl, rfl⟩

/-! ## Putting a token back -/

theorem returnAccess_key (key : Bytes) (client : Client) :
    returnAccess (.deliveryKey key) client = client := rfl

/-- The first server that lists a key. -/
def listedBy (client : Client) (keyId : Bytes) : Option (String × List TokenKey) :=
  (client.foreignTokens.map fun _ tokens => tokens.keys).toList.find? fun entry =>
    entry.2.any fun key => key.keyId == keyId

/-- The stock into which a token is put back. -/
def homeOf (client : Client) (token : AnonToken) : Option String :=
  (listedBy client token.keyId).map Prod.fst

/-- The token as it is put back, valid as long as its key is. -/
def restocked (client : Client) (token : AnonToken) : Stocked where
  token := token
  validUntilMs :=
    validityOf (((listedBy client token.keyId).map Prod.snd).getD client.tokenKeys) token.keyId

theorem stockOf_returnAccess (client : Client) (token : AnonToken) (issuer : Option String) :
    (returnAccess (.anonToken token) client).stockOf issuer =
      client.stockOf issuer ++
        if issuer = homeOf client token then [restocked client token] else [] := by
  have listed : listedBy client token.keyId = (client.foreignTokens.toList.find? fun entry =>
      entry.2.keys.any fun key => key.keyId == token.keyId).map
        fun entry => (entry.1, entry.2.keys) := by
    rw [listedBy, Std.ExtTreeMap.toList_map, List.find?_map]
    rfl
  rw [returnAccess]
  cases found : client.foreignTokens.toList.find? fun entry =>
      entry.2.keys.any fun key => key.keyId == token.keyId with
  | none =>
      rw [found] at listed
      have home : homeOf client token = none := by
        rw [homeOf, listed]
        rfl
      rw [home, restocked, listed]
      cases issuer with
      | none =>
          rw [if_pos rfl]
          rfl
      | some domain =>
          rw [if_neg (Option.some_ne_none _), List.append_nil]
          rfl
  | some entry =>
      obtain ⟨domain, tokens⟩ := entry
      rw [found] at listed
      have home : homeOf client token = some domain := by
        rw [homeOf, listed]
        rfl
      have there : (client.foreignTokens[domain]? : Option ForeignTokens) = some tokens :=
        Std.ExtTreeMap.mem_toList_iff_getElem?_eq_some.1 (List.mem_of_find?_eq_some found)
      rw [home, restocked, listed]
      cases issuer with
      | none =>
          rw [if_neg (Option.some_ne_none _).symm, List.append_nil]
          rfl
      | some other =>
          simp only [Client.stockOf, Option.some.injEq]
          rw [Std.ExtTreeMap.getElem?_insert]
          by_cases same : domain = other
          · obtain rfl := same
            rw [if_pos Std.ReflCmp.compare_self, if_pos rfl, there]
            rfl
          · rw [if_neg fun equal => same (compare_eq_iff_eq.1 equal), if_neg (Ne.symm same),
              List.append_nil]

/-! ## What does not touch the stocks -/

theorem sealFree_stockOf (issuer : Option String) :
    SealFree fun client => client.stockOf issuer := by
  intro client sessions readings
  cases issuer <;> rfl

theorem sealFree_homeOf (token : AnonToken) : SealFree fun client => homeOf client token :=
  fun _ _ _ => rfl

theorem sealFree_restocked (token : AnonToken) : SealFree fun client => restocked client token :=
  fun _ _ _ => rfl

/-- The stocks are the same, and each token belongs where it did. -/
structure SameStocks (client later : Client) : Prop where
  stockOf : ∀ issuer, later.stockOf issuer = client.stockOf issuer
  homeOf : ∀ token, homeOf later token = homeOf client token
  restocked : ∀ token, restocked later token = restocked client token

namespace SameStocks

variable {client middle later : Client}

theorem refl (client : Client) : SameStocks client client :=
  ⟨fun _ => rfl, fun _ => rfl, fun _ => rfl⟩

theorem trans (first : SameStocks client middle) (second : SameStocks middle later) :
    SameStocks client later :=
  ⟨fun issuer => (second.stockOf issuer).trans (first.stockOf issuer),
    fun token => (second.homeOf token).trans (first.homeOf token),
    fun token => (second.restocked token).trans (first.restocked token)⟩

/-- An action that only seals leaves the stocks as they are. -/
theorem of_exec
    (action : Act α)
    (keeps : ∀ {τ : Type} {part : Client -> τ}, SealFree part -> Keeps part action)
    (client : Client) : SameStocks client (exec action client).2 :=
  ⟨fun issuer => keeps (sealFree_stockOf issuer) client,
    fun token => keeps (sealFree_homeOf token) client,
    fun token => keeps (sealFree_restocked token) client⟩

end SameStocks

/-! ## The stock of a user -/

theorem stockOf_issuerOf {client : Client} {user : String} {stock : List Stocked}
    (found : stockFor client user = some stock) :
    client.stockOf (issuerOf client user) = stock := by
  unfold stockFor at found
  unfold issuerOf
  split at found
  · next home =>
      rw [if_pos home]
      exact Option.some.inj found
  · next abroad =>
      rw [if_neg abroad, Client.stockOf, found]
      rfl

theorem stockOf_setStock {client : Client} {user : String} {stock : List Stocked}
    (found : stockFor client user = some stock) (rest : List Stocked) (issuer : Option String) :
    (setStock user rest client).stockOf issuer =
      if issuer = issuerOf client user then rest else client.stockOf issuer := by
  unfold stockFor at found
  unfold setStock issuerOf
  split at found
  · next home =>
      rw [if_pos home, if_pos home]
      cases issuer with
      | none => rfl
      | some domain =>
          rw [if_neg (Option.some_ne_none _)]
          rfl
  · next abroad =>
      rw [if_neg abroad, if_neg abroad]
      cases issuer with
      | none =>
          rw [if_neg (Option.some_ne_none _).symm]
          rfl
      | some domain =>
          simp only [Client.stockOf, Option.some.injEq]
          rw [Std.ExtTreeMap.getElem?_modify]
          by_cases same : domain = serverOf user
          · obtain ⟨tokens, there, -⟩ := Option.map_eq_some_iff.1 found
            rw [same, if_pos Std.ReflCmp.compare_self, if_pos rfl, there]
            rfl
          · rw [if_neg fun equal => same (compare_eq_iff_eq.1 equal).symm, if_neg same]

theorem keysOf_setStock (user : String) (rest : List Stocked) (client : Client) :
    (setStock user rest client).foreignTokens.map (fun _ tokens => tokens.keys) =
        client.foreignTokens.map (fun _ tokens => tokens.keys) ∧
      (setStock user rest client).tokenKeys = client.tokenKeys := by
  unfold setStock
  split
  · exact ⟨rfl, rfl⟩
  · refine ⟨?_, rfl⟩
    apply Std.ExtTreeMap.ext_getElem?
    intro domain
    rw [Std.ExtTreeMap.getElem?_map, Std.ExtTreeMap.getElem?_map, Std.ExtTreeMap.getElem?_modify]
    split
    · next same =>
        rw [compare_eq_iff_eq.1 same]
        cases (client.foreignTokens[domain]? : Option ForeignTokens) <;> rfl
    · rfl

theorem listedBy_setStock (user : String) (rest : List Stocked) (client : Client)
    (keyId : Bytes) : listedBy (setStock user rest client) keyId = listedBy client keyId := by
  rw [listedBy, (keysOf_setStock user rest client).1, listedBy]

/-! ## Paying for a delivery -/

/-- A delivery to the user needs no token. -/
def isFree (client : Client) (user : String) : Bool :=
  user == client.user || client.hasDeliveryKey user

/-- The token with which a delivery to another user is paid, if there is one. -/
def nextToken (library : SendingLibrary) (client : Client) (user : String) : Option AnonToken :=
  (stockFor client user).bind fun stock => (takeToken (library.clock client.readings) stock).1

/-- A token was taken out of the stock of a server, and those that expire at once. -/
structure Takes
    (now : Int64) (issuer : Option String) (client : Client) (token : AnonToken)
    (later : Client) : Prop where
  taken : ∃ first, first.token = token ∧
    (prune now (client.stockOf issuer)).Perm (first :: later.stockOf issuer)
  others : ∀ other, other ≠ issuer -> later.stockOf other = client.stockOf other
  homeOf : ∀ token, homeOf later token = homeOf client token
  restocked : ∀ token, restocked later token = restocked client token

theorem Takes.of_same
    {now : Int64} {issuer : Option String} {client middle later : Client} {token : AnonToken}
    (takes : Takes now issuer client token middle)
    (same : SameStocks middle later) : Takes now issuer client token later := by
  refine ⟨?_, fun other different => ?_, fun other => ?_, fun other => ?_⟩
  · rw [same.stockOf]
    exact takes.taken
  · exact (same.stockOf other).trans (takes.others other different)
  · exact (same.homeOf other).trans (takes.homeOf other)
  · exact (same.restocked other).trans (takes.restocked other)

section

variable (library : SendingLibrary) {client : Client} {user : String}

theorem exec_accessFor_free (free : isFree client user = true) :
    ∃ key, exec (accessFor library user) client = (.ok (.deliveryKey key), client) := by
  rw [isFree, Bool.or_eq_true, beq_iff_eq] at free
  by_cases self : user = client.user
  · refine ⟨client.dk.key.bytes, ?_⟩
    rw [accessFor, exec_get_bind, if_pos self]
    rfl
  · obtain ⟨⟨key, generation⟩, known⟩ :=
      Option.isSome_iff_exists.1 (free.resolve_left self)
    refine ⟨key, ?_⟩
    rw [accessFor, exec_get_bind, if_neg self, known]
    rfl

/-- The delivery is not free: a token is taken, or there is none and those that expire at once
are thrown away. -/
theorem exec_accessFor_paid (paid : isFree client user = false) :
    (∃ token later, nextToken library client user = some token ∧
      exec (accessFor library user) client = (.ok (.anonToken token), later) ∧
        Takes (library.clock client.readings) (issuerOf client user) client token later ∧
        later.readings = client.readings + 1) ∨
    (nextToken library client user = none ∧
      ∃ error later, exec (accessFor library user) client = (.error error, later) ∧
        ∀ issuer, later.stockOf issuer =
          if issuer = issuerOf client user then
            prune (library.clock client.readings) (client.stockOf issuer)
          else client.stockOf issuer) := by
  rw [isFree, Bool.or_eq_false_iff, beq_eq_false_iff_ne, Client.hasDeliveryKey,
    Option.isSome_eq_false_iff, Option.isNone_iff_eq_none] at paid
  obtain ⟨other, unknown⟩ := paid
  rw [accessFor, exec_get_bind, if_neg other, unknown, nextToken]
  dsimp only
  cases found : stockFor client user with
  | none =>
      refine .inr ⟨rfl, _, client, rfl, fun issuer => ?_⟩
      split
      · next same =>
          have empty : client.stockOf issuer = [] := by
            rw [same, issuerOf]
            unfold stockFor at found
            split at found
            · cases found
            · next abroad =>
                rw [if_neg abroad, Client.stockOf, found]
                rfl
          rw [empty]
          rfl
      · rfl
  | some stock =>
      let now := library.clock client.readings
      let read : Client := { client with readings := client.readings + 1 }
      have there : stockFor read user = some stock := found
      let paid : Client := setStock user (takeToken now stock).2 read
      have pays : exec (do
          let now ← nowMs library.toOpening
          let taken := takeToken now stock
          modify (setStock user taken.2)
          return Access.anonToken (← fetched taken.1 (.token user)) : Act Access) client =
            ((takeToken now stock).1.elim (.error (.need (.token user))) (.ok <| .anonToken ·),
              paid) := by
        unfold nowMs nextReading
        simp only [bind_assoc, pure_bind]
        rw [exec_modifyGet_bind, exec_modify_bind, exec_bind, exec_liftM]
        dsimp only [now]
        cases (takeToken (library.clock client.readings) stock).1 <;> rfl
      have stocks (issuer : Option String) : paid.stockOf issuer =
          if issuer = issuerOf client user then (takeToken now stock).2
          else client.stockOf issuer := by
        rw [stockOf_setStock there]
        cases issuer <;> rfl
      rcases takeToken_cases now stock with ⟨empty, taken⟩ | ⟨first, rest, taken, perm⟩
      · rw [taken] at pays stocks
        refine .inr ⟨congrArg Prod.fst taken, _, paid, pays, fun issuer => ?_⟩
        rw [stocks]
        split
        · next same => rw [same, stockOf_issuerOf found, empty]
        · rfl
      · rw [taken] at pays stocks
        refine .inl ⟨first.token, paid, congrArg Prod.fst taken, pays, ?_, ?_⟩
        · refine ⟨⟨first, rfl, ?_⟩, fun other different => ?_, fun token => ?_, fun token => ?_⟩
          · rw [stocks, if_pos rfl, stockOf_issuerOf found]
            exact perm
          · rw [stocks, if_neg different]
          · rw [Engine.homeOf, listedBy_setStock]
            rfl
          · rw [Engine.restocked, listedBy_setStock, (keysOf_setStock user _ read).2]
            rfl
        · dsimp only [paid]
          unfold setStock
          split <;> rfl

end

end Parvane.Engine
