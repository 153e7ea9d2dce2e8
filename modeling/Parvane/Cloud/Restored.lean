import Parvane.Cloud.Snapshot
import Parvane.Cloud.Visible

/-!
# Snapshots and the visible tree

A state made of a snapshot has the registers of the nodes that the snapshot holds, and shows the
tree that the snapshot was made of.  A state that knows less than the one which made the snapshot
shows this tree after merging it, if it knows the nodes that were left out as far as it knows
them at all.
-/

namespace Parvane.Cloud

open Wire Domain Convergence Ancestry

/-! ## States that know less -/

/-- A register that is offered what it came to hold in several steps takes it. -/
theorem register_absorbs [LinearOrder κ]
    {rank : ν -> κ} {step : σ -> α -> σ} (part : σ -> Option ν) (view : α -> Option ν)
    (put : Option ν -> ν -> Option ν)
    (put_eq : ∀ slot value, put slot value = keepGreatest rank slot value)
    (part_step : ∀ state operation,
      (view operation).elim (part state) (put (part state)) = part (step state operation))
    (operations : List α) (state : σ) :
    (part (operations.foldl step state)).elim (part state) (put (part state)) =
      part (operations.foldl step state) := by
  have puts : put = keepGreatest rank := funext fun slot => funext (put_eq slot)
  have run : part (operations.foldl step state) =
      operations.foldl (fun slot operation => (view operation).elim slot (put slot)) (part state) :=
    (List.foldl_hom part part_step).symm
  rw [run, puts, foldl_optional]
  exact keepGreatest_foldl_absorbs rank _ _

theorem Node.absorb_foldl_take (node : Node) (offers : List NodeOffer) :
    node.absorb (offers.foldl Node.take node) = offers.foldl Node.take node := by
  apply Node.ext
  · exact register_absorbs Node.created NodeOffer.created putCreated putCreated_eq_keepGreatest
      (fun _ _ => rfl) offers node
  · exact register_absorbs Node.place NodeOffer.place putMax putMax_eq_keepGreatest
      (fun _ _ => rfl) offers node
  · exact register_absorbs Node.body NodeOffer.body putBody putBody_eq_keepGreatest
      (fun _ _ => rfl) offers node
  · exact register_absorbs Node.trash NodeOffer.trash putMax putMax_eq_keepGreatest
      (fun _ _ => rfl) offers node
  · exact register_absorbs Node.purgedAt NodeOffer.purgedAt
      (fun slot at_ => some (slot.elim at_ (min · at_))) putPurged_eq_keepGreatest
      (fun _ _ => rfl) offers node

/-- What one state holds, another comes to hold when it takes the same. -/
structure Below (lower upper : CloudState) : Prop where
  absorb : ∀ (id : NodeId) (node : Node), upper.nodes[id]? = some node ->
    (lower.nodes[id]?.getD Node.empty).absorb node = node
  none : ∀ id : NodeId, upper.nodes[id]? = .none -> lower.nodes[id]? = .none
  title : upper.title.elim lower.title (putMax lower.title) = upper.title

theorem below_foldl_take (state : CloudState) (offers : List Offer) :
    Below state (offers.foldl CloudState.take state) := by
  let own (id : NodeId) := offers.filter fun offer => offer.node?.map Prod.fst = some id
  have nodes (id : NodeId) : (offers.foldl CloudState.take state).nodes[id]? =
      if own id = [] then state.nodes[id]?
      else some (((own id).map fun offer => (offer.node?.map Prod.snd).getD .none).foldl Node.take
        (state.nodes[id]?.getD Node.empty)) := by
    rw [List.foldl_map, ← ConvergesFrom.foldl_defaulted, ← ConvergesFrom.getElem?_foldl_alterAt,
      List.foldl_hom CloudState.nodes]
    intro state offer
    cases offer <;> rfl
  refine ⟨fun id node held => ?_, fun id missing => ?_, ?_⟩
  · rw [nodes] at held
    split at held
    · rw [held]
      exact Node.absorb_foldl_take node []
    · cases held
      exact Node.absorb_foldl_take _ _
  · rw [nodes] at missing
    split at missing
    · exact missing
    · cases missing
  · exact register_absorbs CloudState.title Offer.title? putMax putMax_eq_keepGreatest
      (fun _ offer => by cases offer <;> rfl) offers state

theorem offerOf_of_mem_offers {ops : List CloudOp} {offer : Offer}
    (member : offer ∈ offers ops) : ∃ op ∈ ops, offerOf op = .ok offer := by
  obtain ⟨op, inside, accepted⟩ := List.mem_filterMap.1 member
  refine ⟨op, inside, ?_⟩
  cases found : offerOf op with
  | error error => simp [found, Except.toOption] at accepted
  | ok other =>
      rw [found] at accepted
      cases accepted
      rfl

/-- The state after operations. -/
def reached (ops : List CloudOp) : CloudState :=
  (applyOps ops .new).2

theorem below_of_subset {fewer ops : List CloudOp} (subset : fewer ⊆ ops) :
    Below (reached fewer) (reached ops) := by
  have checked (ops : List CloudOp) : ∀ offer ∈ offers ops, offer.Checked := by
    intro offer member
    obtain ⟨op, -, accepted⟩ := offerOf_of_mem_offers member
    exact offerOf_checked accepted
  have empty : ∀ id : NodeId, Checked (CloudState.new.nodes[id]?.getD Node.empty).body := by
    intro id value member
    cases member
  have again : (offers ops).foldl CloudState.take (reached fewer) = reached ops := by
    rw [reached, reached, applyOps_eq_foldl, applyOps_eq_foldl,
      stateTake_commutesOn.foldl_foldl_comm _ _ _ empty (checked fewer) (checked ops)]
    refine stateTake_commutesOn.foldl_foldl_of_subset _ _ _ empty (checked ops) fun offer member => ?_
    obtain ⟨op, inFewer, accepted⟩ := List.mem_filterMap.1 member
    exact List.mem_filterMap.2 ⟨op, subset inFewer, accepted⟩
  exact again ▸ below_foldl_take (reached fewer) (offers ops)

/-! ## Registers that can be read again -/

/-- The stamp passes the checks of a stamp. -/
def Marked (stamp : Stamp) : Prop :=
  (stamp.lamport != 0 && isValidDeviceId stamp.deviceId) = true

/-- What an operation may bring into a register. -/
structure Sound (created : Option Created) (place : Option Place) (body : Option Body)
    (trash : Option Trash) : Prop where
  created : ∀ value ∈ created, Marked value.1 ∧ value.2 ≠ .unspecified
  place : ∀ value ∈ place, Marked value.stamp ∧ checkName value.name = .ok ()
  body : ∀ value ∈ body, Marked value.stamp ∧ CheckedBody value
  trash : ∀ value ∈ trash, Marked value.stamp

def Node.Sound (node : Node) : Prop :=
  Cloud.Sound node.created node.place node.body node.trash

def Offer.Sound : Offer -> Prop
  | .toNode _ offer => Cloud.Sound offer.created offer.place offer.body offer.trash
  | .toTitle title => Marked (ofLex title).1 ∧ checkName (ofLex title).2 = .ok ()

structure CloudState.Sound (state : CloudState) : Prop where
  nodes : ∀ (id : NodeId) (node : Node), state.nodes[id]? = some node -> node.Sound
  title : ∀ title ∈ state.title, Marked (ofLex title).1 ∧ checkName (ofLex title).2 = .ok ()

theorem fromPb_marked {message : Option LwwStamp} {stamp : Stamp}
    (read : Stamp.fromPb message = .ok stamp) : Marked stamp := by
  simp only [Stamp.fromPb, bind_eq_ok, require_eq_ok, pure, Except.pure, Except.ok.injEq] at read
  obtain ⟨found, -, _, lamport, _, device, rfl⟩ := read
  rw [Marked, lamport, device]
  rfl

theorem kind_of_checkCreateKind {create : CloudCreate} {kind : CloudNodeKind}
    (checked : checkCreateKind create = .ok kind) : kind ≠ .unspecified := by
  simp only [checkCreateKind, bind_eq_ok] at checked
  obtain ⟨found, -, checked⟩ := checked
  cases found with
  | unspecified => cases checked
  | folder =>
      simp only [bind_eq_ok, pure, Except.pure, Except.ok.injEq] at checked
      obtain ⟨_, -, rfl⟩ := checked
      nofun
  | file =>
      simp only [bind_eq_ok, pure, Except.pure, Except.ok.injEq] at checked
      obtain ⟨_, -, _, -, _, -, rfl⟩ := checked
      nofun

theorem offerOf_sound {op : CloudOp} {offer : Offer}
    (accepted : offerOf op = .ok offer) : offer.Sound := by
  have contents := offerOf_checked accepted
  simp only [offerOf, bind_eq_ok] at accepted
  obtain ⟨change, -, accepted⟩ := accepted
  cases change with
  | create create =>
      simp only [bind_eq_ok] at accepted
      obtain ⟨id, -, parent, -, stamp, stampRead, _, name, kind, kindChecked, returned⟩ := accepted
      cases returned
      have marked := fromPb_marked stampRead
      refine ⟨?_, ?_, fun value member => ⟨?_, contents value member⟩, nofun⟩
      · rintro _ ⟨⟩
        exact ⟨marked, kind_of_checkCreateKind kindChecked⟩
      · rintro _ ⟨⟩
        exact ⟨marked, name⟩
      · obtain ⟨blob, -, rfl⟩ := Option.map_eq_some_iff.1 member
        exact marked
  | move move =>
      simp only [bind_eq_ok] at accepted
      obtain ⟨id, -, parent, -, stamp, stampRead, _, name, returned⟩ := accepted
      cases returned
      refine ⟨nofun, ?_, nofun, nofun⟩
      rintro _ ⟨⟩
      exact ⟨fromPb_marked stampRead, name⟩
  | setBlob setBlob =>
      simp only [bind_eq_ok] at accepted
      obtain ⟨id, -, stamp, stampRead, blob, -, _, -, _, -, returned⟩ := accepted
      cases returned
      refine ⟨nofun, nofun, fun value member => ⟨?_, contents value member⟩, nofun⟩
      cases member
      exact fromPb_marked stampRead
  | trash trash =>
      simp only [bind_eq_ok] at accepted
      obtain ⟨id, -, stamp, stampRead, returned⟩ := accepted
      cases returned
      refine ⟨nofun, nofun, nofun, ?_⟩
      rintro _ ⟨⟩
      exact fromPb_marked stampRead
  | purge purge =>
      simp only [bind_eq_ok] at accepted
      obtain ⟨id, -, stamp, -, returned⟩ := accepted
      cases returned
      exact ⟨nofun, nofun, nofun, nofun⟩
  | setMeta setMeta =>
      simp only [bind_eq_ok] at accepted
      obtain ⟨stamp, stampRead, _, name, returned⟩ := accepted
      cases returned
      exact ⟨fromPb_marked stampRead, name⟩
  | delete _ => cases accepted

/-- A register holds nothing but what it was offered. -/
theorem forall_mem_put [LinearOrder κ]
    {rank : ν -> κ} {put : Option ν -> ν -> Option ν}
    (put_eq : ∀ slot value, put slot value = keepGreatest rank slot value)
    {P : ν -> Prop} {slot found : Option ν} (held : ∀ value ∈ slot, P value)
    (offered : ∀ value ∈ found, P value) : ∀ value ∈ found.elim slot (put slot), P value := by
  cases found with
  | none => exact held
  | some incoming =>
      intro value member
      rw [Option.elim_some, put_eq] at member
      obtain ⟨kept, keeps, rfl | before⟩ := keepGreatest_eq_some rank slot incoming
      · cases keeps.symm.trans member
        exact offered _ rfl
      · cases keeps.symm.trans member
        exact held _ before

theorem Node.Sound.take {node : Node} {offer : NodeOffer}
    (sound : node.Sound) (offered : Cloud.Sound offer.created offer.place offer.body offer.trash) :
    (node.take offer).Sound where
  created := forall_mem_put putCreated_eq_keepGreatest sound.created offered.created
  place := forall_mem_put putMax_eq_keepGreatest sound.place offered.place
  body := forall_mem_put putBody_eq_keepGreatest sound.body offered.body
  trash := forall_mem_put putMax_eq_keepGreatest sound.trash offered.trash

theorem Node.sound_empty : Node.empty.Sound :=
  ⟨nofun, nofun, nofun, nofun⟩

theorem CloudState.getElem?_onNode
    (state : CloudState) (id other : NodeId) (change : Node -> Node) :
    (state.onNode id change).nodes[other]? =
      if id = other then some (change (state.nodes[id]?.getD Node.empty))
      else state.nodes[other]? := by
  rw [CloudState.onNode, Std.ExtTreeMap.getElem?_alter]
  simp only [compare_eq_iff_eq]

variable {state : CloudState}

theorem CloudState.Sound.take {offer : Offer}
    (sound : state.Sound)
    (offered : offer.Sound) : (state.take offer).Sound := by
  cases offer with
  | toNode id offer =>
      refine ⟨fun other node held => ?_, sound.title⟩
      rw [CloudState.take, getElem?_onNode] at held
      split at held
      · cases held
        refine Node.Sound.take ?_ offered
        cases before : state.nodes[id]? with
        | none => exact Node.sound_empty
        | some node => exact sound.nodes id node before
      · exact sound.nodes other node held
  | toTitle title =>
      have given : ∀ found ∈ some title, Marked (ofLex found).1 ∧ checkName (ofLex found).2 = .ok () :=
        by rintro _ ⟨⟩; exact offered
      exact ⟨sound.nodes, forall_mem_put putMax_eq_keepGreatest sound.title given⟩

theorem sound_reached (ops : List CloudOp) : (reached ops).Sound := by
  have all : ∀ offer ∈ offers ops, offer.Sound := by
    intro offer member
    obtain ⟨op, -, accepted⟩ := offerOf_of_mem_offers member
    exact offerOf_sound accepted
  rw [reached, applyOps_eq_foldl]
  refine List.foldlRecOn (motive := CloudState.Sound) (offers ops) CloudState.take ⟨?_, nofun⟩
    fun state sound offer member => sound.take (all offer member)
  intro id node held
  cases held

/-! ## Entries -/

theorem deviceIndex_spec (devices : List String) (stamp : Stamp) :
    devices <+: (deviceIndex devices stamp).2 ∧
      (deviceIndex devices stamp).2[(deviceIndex devices stamp).1]? = some stamp.deviceId := by
  rw [deviceIndex]
  cases found : devices.idxOf? stamp.deviceId with
  | none => simp
  | some index =>
      obtain ⟨within, same, -⟩ := List.idxOf?_eq_some_iff.1 found
      exact ⟨List.prefix_rfl, by simp only [List.getElem?_eq_getElem within, same]⟩

theorem deviceIndexOf_spec (devices : List String) (stamp : Option Stamp) :
    devices <+: (deviceIndexOf devices stamp).2 ∧
      ∀ value ∈ stamp,
        (deviceIndexOf devices stamp).2[(deviceIndexOf devices stamp).1]? = some value.deviceId := by
  cases stamp with
  | none => exact ⟨List.prefix_rfl, nofun⟩
  | some value =>
      obtain ⟨more, found⟩ := deviceIndex_spec devices value
      refine ⟨more, ?_⟩
      rintro _ ⟨⟩
      exact found

theorem stampOf_eq_ok {devices later : List String} {stamp : Stamp} {dev : Nat}
    (marked : Marked stamp)
    (found : devices[dev]? = some stamp.deviceId)
    (more : devices <+: later) : stampOf later stamp.lamport dev = .ok stamp := by
  obtain ⟨rest, rfl⟩ := more
  have held : (devices ++ rest)[dev]? = some stamp.deviceId := by
    obtain ⟨within, -⟩ := List.getElem?_eq_some_iff.1 found
    rw [List.getElem?_append_left within, found]
  simp only [stampOf, bind_eq_ok, present_eq_ok, require_eq_ok]
  exact ⟨_, held, (), marked, rfl⟩

theorem toInt32_tryFrom (kind : CloudNodeKind) : CloudNodeKind.tryFrom kind.toInt32 = some kind := by
  cases kind <;> rfl

theorem parentId_bytes (parent : Option NodeId) :
    parentId (parent.elim [] FixedBytes.bytes) = .ok parent := by
  cases parent with
  | none => rfl
  | some parent =>
      have nonempty : parent.bytes.isEmpty = false := by
        have length := parent.length_eq
        cases written : parent.bytes with
        | nil =>
            rw [written] at length
            cases length
        | cons byte rest => rfl
      rw [parentId, Option.elim_some, nonempty]
      simp [nodeId, FixedBytes.ofBytes?, parent.length_eq, present, Except.map]

theorem Marked.lamport_ne {stamp : Stamp} (marked : Marked stamp) : stamp.lamport ≠ 0 := by
  simp only [Marked, Bool.and_eq_true, bne_iff_ne] at marked
  exact marked.1

theorem Marked.lamport_pos {stamp : Stamp} (marked : Marked stamp) : 0 < stamp.lamport :=
  UInt64.pos_iff_ne_zero.2 marked.lamport_ne

section

variable {devices : List String} {entry : CloudEntry}

theorem readCreated_eq_ok {created : Option Created}
    (sound : ∀ value ∈ created, Marked value.1 ∧ value.2 ≠ .unspecified)
    (kind : entry.kind = (created.elim .unspecified Prod.snd).toInt32)
    (lamport : entry.createLamport = created.elim 0 fun created => created.1.lamport)
    (found : ∀ value ∈ created,
      stampOf devices value.1.lamport entry.createDev = .ok value.1) :
    readCreated devices entry = .ok created := by
  rw [readCreated, kind, toInt32_tryFrom, lamport]
  cases created with
  | none => rfl
  | some value =>
      obtain ⟨stamp, shape⟩ := value
      obtain ⟨marked, known⟩ := sound _ rfl
      have positive : (stamp.lamport != 0) = true := bne_iff_ne.2 marked.lamport_ne
      have read := found _ rfl
      cases shape with
      | unspecified => exact absurd rfl known
      | folder =>
          simp only [Option.elim_some, present, require, positive, read]
          rfl
      | file =>
          simp only [Option.elim_some, present, require, positive, read]
          rfl

theorem readPlace_eq_ok {place : Option Place}
    (sound : ∀ value ∈ place, Marked value.stamp ∧ checkName value.name = .ok ())
    (lamport : entry.moveLamport = place.elim 0 fun place => place.stamp.lamport)
    (name : entry.name = place.elim "" Place.name)
    (parent : entry.parentId = (place.bind Place.parent).elim [] FixedBytes.bytes)
    (found : ∀ value ∈ place,
      stampOf devices value.stamp.lamport entry.moveDev = .ok value.stamp) :
    readPlace devices entry = .ok place := by
  rw [readPlace, lamport, name, parent, parentId_bytes]
  cases place with
  | none => rfl
  | some value =>
      obtain ⟨marked, checked⟩ := sound _ rfl
      simp only [Option.elim_some, if_pos marked.lamport_pos, bind_eq_ok, checked, found _ rfl]
      exact ⟨(), trivial, _, rfl, _, rfl, rfl⟩

theorem readBody_eq_ok {contents : Option Body}
    (sound : ∀ value ∈ contents, Marked value.stamp ∧ CheckedBody value)
    (lamport : entry.blobLamport = contents.elim 0 fun body => body.stamp.lamport)
    (blob : entry.blob = contents.map Body.blob) (thumb : entry.thumb = contents.bind Body.thumb)
    (mtimeMs : entry.mtimeMs = contents.elim 0 Body.mtimeMs)
    (found : ∀ value ∈ contents,
      stampOf devices value.stamp.lamport entry.blobDev = .ok value.stamp) :
    readBody devices entry = .ok contents := by
  rw [readBody, lamport, blob, thumb, mtimeMs]
  cases contents with
  | none => rfl
  | some value =>
      obtain ⟨marked, stamp, blob, thumb, mtimeMs, checkedBlob, checkedThumb, rfl⟩ := sound _ rfl
      have read := found _ rfl
      simp only [Option.map_some, Option.elim_some, Option.bind_some, if_pos marked.lamport_pos,
        bind_eq_ok, read]
      exact ⟨(), checkedBlob, (), checkedThumb, _, rfl, rfl⟩

theorem readTrash_eq_ok {trash : Option Trash}
    (sound : ∀ value ∈ trash, Marked value.stamp)
    (lamport : entry.trashLamport = trash.elim 0 fun trash => trash.stamp.lamport)
    (trashed : entry.trashed = trash.elim false Trash.trashed)
    (atMs : entry.trashedAtMs = trash.elim 0 Trash.atMs)
    (found : ∀ value ∈ trash,
      stampOf devices value.stamp.lamport entry.trashDev = .ok value.stamp) :
    readTrash devices entry = .ok trash := by
  rw [readTrash, lamport, trashed, atMs]
  cases trash with
  | none => rfl
  | some value =>
      have read := found _ rfl
      simp only [Option.elim_some, if_pos (sound _ rfl).lamport_pos, bind_eq_ok, read]
      exact ⟨_, rfl, rfl⟩

end

/-- An entry is read as the node that it was written of, also with devices that came later. -/
theorem readEntry_writeEntry
    (devices later : List String) (id : NodeId) {node : Node} (sound : node.Sound) :
    devices <+: (writeEntry devices id node).2 ∧
      ((writeEntry devices id node).2 <+: later ->
        readEntry later (writeEntry devices id node).1 = .ok (id, node)) := by
  obtain ⟨created, createdAt⟩ := deviceIndexOf_spec devices (node.created.map Prod.fst)
  simp only [writeEntry]
  generalize deviceIndexOf devices (node.created.map Prod.fst) = first at *
  obtain ⟨place, placeAt⟩ := deviceIndexOf_spec first.2 (node.place.map Place.stamp)
  generalize deviceIndexOf first.2 (node.place.map Place.stamp) = second at *
  obtain ⟨body, bodyAt⟩ := deviceIndexOf_spec second.2 (node.body.map Body.stamp)
  generalize deviceIndexOf second.2 (node.body.map Body.stamp) = third at *
  obtain ⟨trash, trashAt⟩ := deviceIndexOf_spec third.2 (node.trash.map Trash.stamp)
  generalize deviceIndexOf third.2 (node.trash.map Trash.stamp) = fourth at *
  refine ⟨created.trans (place.trans (body.trans trash)), fun more => ?_⟩
  simp only [readEntry, bind_eq_ok]
  refine ⟨id, ?_, node.created, readCreated_eq_ok sound.created rfl rfl fun value member => ?_,
    node.place, readPlace_eq_ok sound.place rfl rfl rfl fun value member => ?_,
    node.body, readBody_eq_ok sound.body rfl rfl rfl rfl fun value member => ?_,
    node.trash, readTrash_eq_ok sound.trash rfl rfl rfl fun value member => ?_, ?_⟩
  · simp [nodeId, FixedBytes.ofBytes?, id.length_eq, present]
  · exact stampOf_eq_ok (sound.created value member).1
      (createdAt value.1 (Option.mem_map_of_mem Prod.fst member))
      (place.trans (body.trans (trash.trans more)))
  · exact stampOf_eq_ok (sound.place value member).1
      (placeAt value.stamp (Option.mem_map_of_mem Place.stamp member))
      (body.trans (trash.trans more))
  · exact stampOf_eq_ok (sound.body value member).1
      (bodyAt value.stamp (Option.mem_map_of_mem Body.stamp member)) (trash.trans more)
  · exact stampOf_eq_ok (sound.trash value member)
      (trashAt value.stamp (Option.mem_map_of_mem Trash.stamp member)) more
  · have purgedAt : (if node.purgedAt.isSome = true then some (node.purgedAt.getD 0) else none) =
        node.purgedAt := by
      cases node.purgedAt <;> rfl
    simp only [purgedAt]
    rfl

theorem writeEntries_spec
    (devices : List String)
    {nodes : List (NodeId × Node)}
    (sound : ∀ entry ∈ nodes, entry.2.Sound) :
    devices <+: (writeEntries devices nodes).2 ∧
      ∀ later, (writeEntries devices nodes).2 <+: later ->
        List.Forall₂ (fun entry node => readEntry later entry = .ok node)
          (writeEntries devices nodes).1 nodes := by
  induction nodes generalizing devices with
  | nil => exact ⟨List.prefix_rfl, fun _ _ => .nil⟩
  | cons entry nodes inductionHypothesis =>
      obtain ⟨id, node⟩ := entry
      obtain ⟨here, rest⟩ := List.forall_mem_cons.1 sound
      obtain ⟨more, all⟩ := inductionHypothesis (writeEntry devices id node).2 rest
      have first (later : List String) := readEntry_writeEntry devices later id here
      exact ⟨(first []).1.trans more, fun later least =>
        .cons ((first later).2 (more.trans least)) (all later least)⟩

/-! ## Merging a snapshot -/

/-- The nodes that a snapshot holds. -/
def keptNodes (state : CloudState) (now : UInt64) : List (NodeId × Node) :=
  state.nodes.toList.filter fun entry => !state.leftOut now entry.1

theorem mem_keptNodes {state : CloudState} {now : UInt64} {id : NodeId} {node : Node} :
    (id, node) ∈ keptNodes state now ↔
      state.nodes[id]? = some node ∧ state.leftOut now id = false := by
  rw [keptNodes, List.mem_filter, Std.ExtTreeMap.mem_toList_iff_getElem?_eq_some,
    Bool.not_eq_true']

theorem keptNodes_distinct (state : CloudState) (now : UInt64) :
    ((keptNodes state now).map Prod.fst).Nodup := by
  have sorted := (Std.ExtTreeMap.ordered_keys_toList (t := state.nodes)).filter
    fun entry => !state.leftOut now entry.1
  refine List.pairwise_map.2 (sorted.imp fun before same => ?_)
  rw [same] at before
  exact lt_irrefl _ (compare_lt_iff_lt.1 before)

/-- Put the registers of nodes into a state. -/
def absorbAll (nodes : List (NodeId × Node)) (state : CloudState) : CloudState :=
  nodes.foldl (fun state entry => state.onNode entry.1 fun node => node.absorb entry.2) state

/-- Nodes of different identifiers are put into a state one beside the other. -/
theorem getElem?_absorbAll {nodes : List (NodeId × Node)}
    (distinct : (nodes.map Prod.fst).Nodup)
    (state : CloudState) (id : NodeId) :
    (∀ node, (id, node) ∈ nodes ->
      (absorbAll nodes state).nodes[id]? =
        some ((state.nodes[id]?.getD Node.empty).absorb node)) ∧
    (id ∉ nodes.map Prod.fst -> (absorbAll nodes state).nodes[id]? = state.nodes[id]?) := by
  induction nodes generalizing state with
  | nil =>
      refine ⟨fun node member => ?_, fun _ => rfl⟩
      cases member
  | cons entry nodes inductionHypothesis =>
      rw [List.map_cons, List.nodup_cons] at distinct
      obtain ⟨present, missing⟩ := inductionHypothesis distinct.2
        (state.onNode entry.1 fun node => node.absorb entry.2)
      rw [absorbAll] at present missing ⊢
      rw [List.foldl_cons]
      refine ⟨fun node member => ?_, fun outside => ?_⟩
      · rcases List.mem_cons.1 member with rfl | inRest
        · rw [missing distinct.1, CloudState.getElem?_onNode, if_pos rfl]
        · have other : entry.1 ≠ id := fun same =>
            distinct.1 (same ▸ List.mem_map_of_mem (f := Prod.fst) inRest)
          rw [present node inRest, CloudState.getElem?_onNode, if_neg other]
      · rw [List.map_cons, List.mem_cons, not_or] at outside
        rw [missing outside.2, CloudState.getElem?_onNode, if_neg (Ne.symm outside.1)]

theorem title_absorbAll (nodes : List (NodeId × Node)) (state : CloudState) :
    (absorbAll nodes state).title = state.title := by
  induction nodes generalizing state with
  | nil => rfl
  | cons entry nodes inductionHypothesis => exact inductionHypothesis _

/-- Entries that are read as nodes are merged as these nodes. -/
theorem exec_forM_mergeEntry {devices : List String} {entries : List CloudEntry}
    {nodes : List (NodeId × Node)}
    (read : List.Forall₂ (fun entry node => readEntry devices entry = .ok node) entries nodes)
    (state : CloudState) :
    (entries.forM (mergeEntry devices)).exec state = (.ok (), absorbAll nodes state) := by
  induction read generalizing state with
  | nil => rfl
  | @cons entry node entries nodes first _ inductionHypothesis =>
      change (mergeEntry devices entry >>= fun _ => entries.forM (mergeEntry devices)).exec state = _
      have merged : (mergeEntry devices entry).exec state =
          (.ok (), state.onNode node.1 fun old => old.absorb node.2) := by
        simp [mergeEntry, first]
      rw [Update.exec_bind, merged]
      exact inductionHypothesis _

theorem exec_mergeTitle {title : Stamp ×ₗ String}
    (sound : Marked (ofLex title).1 ∧ checkName (ofLex title).2 = .ok ())
    (state : CloudState) :
    (mergeTitle { name := (ofLex title).2, stamp := some (ofLex title).1.toPb }).exec state =
      (.ok (), { state with title := putMax state.title title }) := by
  obtain ⟨marked, checked⟩ := sound
  have stamp : Stamp.fromPb (some (ofLex title).1.toPb) = .ok (ofLex title).1 := by
    simp only [Marked, Bool.and_eq_true] at marked
    simp only [Stamp.fromPb, bind_eq_ok, present_eq_ok, require_eq_ok]
    exact ⟨_, rfl, (), marked.1, (), marked.2, rfl⟩
  simp only [mergeTitle, Update.exec_bind, Update.exec_liftM, checked, stamp, Update.exec_modify]
  rfl

/-- Merging the snapshot of a state into one that knows less. -/
theorem exec_mergeSnapshot_toSnapshot {state lower : CloudState}
    (sound : state.Sound) (below : Below lower state) (now : UInt64) :
    ∃ merged, (mergeSnapshot (state.toSnapshot now)).exec lower = (.ok (), merged) ∧
      merged.title = state.title ∧
      ∀ id : NodeId, merged.nodes[id]? =
        if state.leftOut now id then lower.nodes[id]? else state.nodes[id]? := by
  have kept : ∀ entry ∈ keptNodes state now, entry.2.Sound := fun entry member =>
    sound.nodes entry.1 entry.2 (mem_keptNodes.1 member).1
  have read := (writeEntries_spec [] kept).2 _ List.prefix_rfl
  have titled : ((state.toSnapshot now).title.toList.forM mergeTitle).exec lower =
      (.ok (), { lower with title := state.title }) := by
    have title := below.title
    cases held : state.title with
    | none =>
        rw [held, Option.elim_none] at title
        simp only [CloudState.toSnapshot, held]
        change (Except.ok (), lower) = (Except.ok (), { lower with title := none })
        rw [← title]
    | some value =>
        rw [held, Option.elim_some] at title
        have merged := exec_mergeTitle (sound.title value held) lower
        simp only [CloudState.toSnapshot, held]
        change (mergeTitle _ >>= fun _ => pure ()).exec lower = _
        rw [Update.exec_bind, merged, title]
        rfl
  have outside {id : NodeId}
      (absent : ∀ node, state.nodes[id]? = some node -> state.leftOut now id = true) :
      id ∉ (keptNodes state now).map Prod.fst := by
    intro member
    obtain ⟨⟨other, node⟩, inside, rfl⟩ := List.mem_map.1 member
    obtain ⟨held, known⟩ := mem_keptNodes.1 inside
    cases known.symm.trans (absent node held)
  refine ⟨absorbAll (keptNodes state now) { lower with title := state.title }, ?_,
    title_absorbAll _ _, fun id => ?_⟩
  · rw [mergeSnapshot, Update.exec_bind, titled]
    exact exec_forM_mergeEntry read _
  · obtain ⟨present, missing⟩ := getElem?_absorbAll (keptNodes_distinct state now)
      { lower with title := state.title } id
    cases held : state.nodes[id]? with
    | none =>
        rw [missing (outside fun node known => nomatch held.symm.trans known), below.none id held,
          ite_self]
    | some node =>
        cases leftOut : state.leftOut now id with
        | false =>
            rw [present node (mem_keptNodes.2 ⟨held, leftOut⟩), below.absorb id node held]
            rfl
        | true => exact missing (outside fun _ _ => leftOut)

/-! ## The visible tree -/

variable {now : UInt64}

theorem old_eq {start : Option NodeId} {path : List NodeId} {fuel : Nat}
    (lineage : Lineage state.parent start path) (enough : path.length ≤ fuel) :
    state.old state.parents now fuel start = path.any (state.expired now) := by
  induction lineage generalizing fuel with
  | root => cases fuel <;> rfl
  | step _ inductionHypothesis =>
      cases fuel with
      | zero => simp at enough
      | succ fuel =>
          rw [CloudState.old, CloudState.join_getElem?_parents, List.any_cons,
            inductionHypothesis (Nat.le_of_succ_le_succ enough)]

/-- A node is left out of snapshots when one on its way to the root is expired. -/
theorem leftOut_eq {id : NodeId} {path : List NodeId}
    (lineage : Lineage state.parent (some id) path) :
    state.leftOut now id = path.any (state.expired now) :=
  old_eq lineage (CloudState.length_lineage_le lineage)

theorem leftOut_of_parent {id parent : NodeId}
    (above : state.parent id = some parent)
    (leftOut : state.leftOut now parent = true) : state.leftOut now id = true := by
  obtain ⟨path, lineage⟩ := CloudState.exists_lineage state (some parent)
  rw [leftOut_eq lineage] at leftOut
  rw [leftOut_eq (.step (above ▸ lineage) : Lineage state.parent (some id) (id :: path)),
    List.any_cons, leftOut, Bool.or_true]

theorem purged_of_leftOut {id : NodeId} {path : List NodeId}
    (lineage : Lineage state.parent (some id) path)
    (leftOut : state.leftOut now id = true) : (state.fateAlong path).purged = true := by
  rw [leftOut_eq lineage, List.any_eq_true] at leftOut
  obtain ⟨one, member, expired⟩ := leftOut
  rw [CloudState.purged_fateAlong, List.any_eq_true]
  refine ⟨one, member, ?_⟩
  rw [CloudState.expired] at expired
  cases purgedAt : state.nodes[one]?.bind Node.purgedAt with
  | none =>
      rw [purgedAt] at expired
      cases expired
  | some _ => rfl

/-- Of the nodes that a state leaves out of its snapshots, another knows those which it knows with
their creation, place and deletion, and with the left-out nodes above them. -/
structure KnowsLeftOut (state other : CloudState) (now : UInt64) : Prop where
  created : ∀ id, state.leftOut now id = true -> other.exists id = true ->
    other.nodes[id]?.bind Node.created = state.nodes[id]?.bind Node.created
  place : ∀ id, state.leftOut now id = true -> other.exists id = true ->
    other.nodes[id]?.bind Node.place = state.nodes[id]?.bind Node.place
  purgedAt : ∀ id, state.leftOut now id = true -> other.exists id = true ->
    other.nodes[id]?.bind Node.purgedAt = state.nodes[id]?.bind Node.purgedAt
  above : ∀ id parent, state.leftOut now id = true -> other.exists id = true ->
    state.parent id = some parent -> state.leftOut now parent = true ->
    other.exists parent = true

theorem forgets_of_knowsLeftOut {state other merged : CloudState}
    (knows : KnowsLeftOut state other now)
    (nodes : ∀ id : NodeId, merged.nodes[id]? =
      if state.leftOut now id then other.nodes[id]? else state.nodes[id]?) :
    CloudState.Forgets state merged := by
  have exists_ (id : NodeId) : merged.exists id =
      if state.leftOut now id then other.exists id else state.exists id := by
    rw [CloudState.exists_eq, nodes]
    split <;> rw [CloudState.exists_eq]
  have register {β : Type} (part : Node -> Option β)
      (same : ∀ id, state.leftOut now id = true -> other.exists id = true ->
        other.nodes[id]?.bind part = state.nodes[id]?.bind part)
      (id : NodeId) (known : merged.exists id = true) :
      merged.nodes[id]?.bind part = state.nodes[id]?.bind part := by
    rw [exists_] at known
    rw [nodes]
    split
    · next leftOut =>
        rw [if_pos leftOut] at known
        exact same id leftOut known
    · rfl
  refine ⟨register Node.created knows.created, register Node.place knows.place,
    register Node.purgedAt knows.purgedAt, fun id parent known above => ?_,
    fun id path _ lineage live => ?_⟩
  · rw [exists_] at known ⊢
    by_cases parentOut : state.leftOut now parent = true
    · have leftOut := leftOut_of_parent above parentOut
      rw [if_pos leftOut] at known
      rw [if_pos parentOut]
      exact knows.above id parent leftOut known above parentOut
    · rw [if_neg parentOut]
      exact (CloudState.parent_exists above).2
  · rw [nodes, if_neg]
    intro leftOut
    rw [purged_of_leftOut lineage leftOut] at live
    cases live

/-- A snapshot of a state that operations have made can be read, and the state made of it shows
the same tree.  So does every state that some of these operations have made, after merging the
snapshot, if it knows the nodes that were left out as far as it knows them at all. -/
theorem snapshot_keeps_view (ops : List CloudOp) (now : UInt64) :
    (∃ restored, fromSnapshot ((reached ops).toSnapshot now) = .ok restored ∧
      restored.view = (reached ops).view) ∧
    ∀ fewer ⊆ ops, KnowsLeftOut (reached ops) (reached fewer) now ->
      ∃ merged, (mergeSnapshot ((reached ops).toSnapshot now)).exec (reached fewer) =
          (.ok (), merged) ∧
        merged.view = (reached ops).view := by
  have merges {fewer : List CloudOp} (subset : fewer ⊆ ops)
      (knows : KnowsLeftOut (reached ops) (reached fewer) now) :
      ∃ merged, (mergeSnapshot ((reached ops).toSnapshot now)).exec (reached fewer) =
          (.ok (), merged) ∧
        merged.view = (reached ops).view := by
    obtain ⟨merged, run, -, nodes⟩ :=
      exec_mergeSnapshot_toSnapshot (sound_reached ops) (below_of_subset subset) now
    exact ⟨merged, run, (forgets_of_knowsLeftOut knows nodes).view⟩
  refine ⟨?_, fun fewer subset knows => merges subset knows⟩
  have nothing : KnowsLeftOut (reached ops) (reached []) now := by
    have absent (id : NodeId) : (reached []).exists id ≠ true := by
      intro known
      cases known
    exact ⟨fun id _ known => absurd known (absent id), fun id _ known => absurd known (absent id),
      fun id _ known => absurd known (absent id), fun id _ _ known => absurd known (absent id)⟩
  obtain ⟨restored, run, same⟩ := merges (List.nil_subset ops) nothing
  refine ⟨restored, ?_, same⟩
  have run : (mergeSnapshot ((reached ops).toSnapshot now)).exec .new = (.ok (), restored) := run
  rw [fromSnapshot, run]

/-- The final deletion of the sample folder. -/
def samplePurge : CloudOp where
  op := some (.purge { nodeId := List.replicate 16 1, atMs := 0, stamp := some ⟨2, "d1"⟩ })

theorem snapshot_keeps_view_sample :
    ∃ merged, (mergeSnapshot ((reached [sampleCreate, sampleMove "d1"]).toSnapshot 0)).exec
        (reached [sampleCreate]) = (.ok (), merged) ∧
      merged.view = (reached [sampleCreate, sampleMove "d1"]).view := by
  refine (snapshot_keeps_view [sampleCreate, sampleMove "d1"] 0).2 [sampleCreate] (by simp) ?_
  have kept (id : NodeId) : (reached [sampleCreate, sampleMove "d1"]).leftOut 0 id ≠ true := by
    obtain ⟨path, lineage⟩ :=
      CloudState.exists_lineage (reached [sampleCreate, sampleMove "d1"]) (some id)
    rw [leftOut_eq lineage, ne_eq, List.any_eq_true]
    rintro ⟨one, -, expired⟩
    rw [CloudState.expired, Option.any_eq_true] at expired
    obtain ⟨at_, -, early⟩ := expired
    exact UInt64.not_lt_zero (of_decide_eq_true early)
  exact ⟨fun id leftOut => absurd leftOut (kept id), fun id leftOut => absurd leftOut (kept id),
    fun id leftOut => absurd leftOut (kept id), fun id _ leftOut => absurd leftOut (kept id)⟩

/-- The folder was deleted for good and left out of the snapshot; a state that has not heard of
the deletion shows it after merging. -/
theorem deleted_folder_reappears :
    [sampleCreate] ⊆ [sampleCreate, samplePurge] ∧
      (reached [sampleCreate, samplePurge]).view = [] ∧
      ((mergeSnapshot ((reached [sampleCreate, samplePurge]).toSnapshot
          (purgedKeepMs + 1))).exec (reached [sampleCreate])).1 = .ok () ∧
      ((mergeSnapshot ((reached [sampleCreate, samplePurge]).toSnapshot
          (purgedKeepMs + 1))).exec (reached [sampleCreate])).2.view ≠ [] :=
  ⟨by simp, by decide +kernel, by decide +kernel, by decide +kernel⟩

end Parvane.Cloud
