/-
  PuppetMaster.Shm.OpenProofs — what the processes attached to one object agree on (see
  `PuppetMaster.Shm.Open`).

  `nameEquals_storeName`: a stored string equals exactly its part before the first NUL.
  `Complete` is a header whose creator has stored everything. The invariant (`Inv`): the
  magic is stored only with a complete header; a creator at work has stored the fields it
  is past; an opener that compares does so on a complete header, and the comparisons it is
  past tell about its request and the creator's (`Agrees`). An object's fields are only
  stored by its owner, so a complete header stays so (`Grows`).
-/

import Mathlib.Data.List.TakeWhile
import PuppetMaster.Shm.Open

namespace PuppetMaster.Shm.Open

open PuppetMaster.Core PuppetMaster.Lib

/-! ## Strings in fields -/

/-- What is left of a string in a NUL-terminated field. -/
def upToNul (value : Bytes) : Bytes := value.takeWhile (· != 0)

theorem findIdx?_nul (value rest : Bytes) :
    (value ++ 0 :: rest).findIdx? (· == 0) = some (upToNul value).length := by
  induction value with
  | nil => rfl
  | cons b value ih =>
    by_cases hb : b = 0
    · simp [upToNul, hb, List.findIdx?_cons]
    · simp [upToNul, hb, List.findIdx?_cons] at ih ⊢
      exact ih

theorem take_upToNul (value rest : Bytes) : (value ++ 0 :: rest).take (upToNul value).length = upToNul value := by
  induction value with
  | nil => rfl
  | cons b value ih =>
    by_cases hb : b = 0
    · simp [upToNul, hb]
    · simp [upToNul, hb] at ih ⊢
      exact ih

theorem nameEquals_storeName (field : NameField) (value other : Bytes) (fits : value.length < kNameCapacity) :
    nameEquals (storeName field value fits) other = true ↔ other = upToNul value := by
  simp only [nameEquals, storeName, findIdx?_nul, take_upToNul, Bool.and_eq_true, decide_eq_true_eq]
  constructor
  · exact fun h => h.2.symm
  · intro h
    subst h
    exact ⟨rfl, rfl⟩

theorem upToNul_eq_self {value : Bytes} : upToNul value = value ↔ 0 ∉ value := by
  rw [upToNul, List.takeWhile_eq_self_iff]
  constructor
  · intro h hmem
    have := h 0 hmem
    simp at this
  · intro h b hb
    simp only [bne_iff_ne, ne_eq]
    exact fun e => h (e ▸ hb)

/-! ## What the creator stored -/

/-- The field holds the string, whatever follows its terminator. -/
def HoldsName (field : NameField) (value : Bytes) : Prop := ∃ old fits, field = storeName old value fits

def Stored (q : Accepted) (h : Header) : Field → Prop
  | .layoutVersion => h.layoutVersion = kLayoutVersion
  | .headerSize => h.headerSize = Open.headerSize
  | .slotPayloadSize => h.slotPayloadSize = q.geometry.slotPayloadSize
  | .slotStride => h.slotStride = slotStride q.geometry.slotPayloadSize
  | .slotCount => h.slotCount = q.geometry.slotCount
  | .topicName => HoldsName h.topicName q.identity.topic
  | .typeName => HoldsName h.typeName q.identity.descriptor.typeName
  | .encoding => HoldsName h.encoding q.identity.descriptor.encoding
  | .messageVersion => h.messageVersion = q.identity.descriptor.version
  | .lockStorage => h.lockReady = true
  | .writeSeq | .flags => True
  | .magic => h.magic = kMagic

theorem stored_self (q : Accepted) (h : Header) (field : Field) : Stored q (storeField q h field) field := by
  cases field with
  | topicName => exact ⟨h.topicName, q.topic_fits, rfl⟩
  | typeName => exact ⟨h.typeName, q.typeName_fits, rfl⟩
  | encoding => exact ⟨h.encoding, q.encoding_fits, rfl⟩
  | writeSeq => trivial
  | flags => trivial
  | _ => rfl

/-- A store to one field leaves the others. -/
theorem Stored.store {q : Accepted} {h : Header} {f : Field} (hf : Stored q h f) (field : Field) :
    Stored q (storeField q h field) f := by
  by_cases e : f = field
  · rw [e]
    exact stored_self q h field
  · cases field <;> cases f <;> first | exact hf | exact absurd rfl e

theorem magic_storeField {q : Accepted} {h : Header} {field : Field} (hne : field ≠ .magic) :
    (storeField q h field).magic = h.magic := by
  cases field with
  | magic => exact absurd rfl hne
  | _ => rfl

/-- The magic is the last store, and no other store is. -/
theorem headerStores_end {done rest : List Field} {field : Field} (h : headerStores = done ++ field :: rest) :
    rest = [] ↔ field = .magic := by
  constructor
  · rintro rfl
    have hlast := congrArg List.getLast? h
    rw [List.getLast?_append] at hlast
    simpa [headerStores] using hlast.symm
  · rintro rfl
    by_contra hne
    -- then it would be stored twice
    have hcount := congrArg (List.count Field.magic) h
    have hlast := congrArg List.getLast? h
    rw [List.getLast?_append, List.getLast?_cons_of_ne_nil hne] at hlast
    have hmem : Field.magic ∈ rest := by
      have : rest.getLast? = some .magic := by
        cases hl : rest.getLast? with
        | none => exact absurd (List.getLast?_eq_none_iff.mp hl) hne
        | some f =>
          rw [hl] at hlast
          exact congrArg some (by simpa [headerStores] using hlast.symm)
      exact List.mem_of_getLast? this
    have hpos : 0 < rest.count Field.magic := List.count_pos_iff.mpr hmem
    rw [List.count_append, List.count_cons_self] at hcount
    have hone : headerStores.count Field.magic = 1 := rfl
    omega

structure Complete (o : Object) : Prop where
  magic : o.header.magic = kMagic
  stored : ∀ f ∈ headerStores, Stored o.creator o.header f

/-! ## What an opener compared -/

/-- What a passed comparison says about the creator's request `c` and the opener's `q`. -/
def Agrees (c q : Accepted) : Check → Prop
  | .topicName => q.identity.topic = upToNul c.identity.topic
  | .slotPayloadSize => q.geometry.slotPayloadSize = c.geometry.slotPayloadSize
  | .slotCount => q.geometry.slotCount = c.geometry.slotCount
  | .typeName => q.identity.descriptor.typeName = upToNul c.identity.descriptor.typeName
  | .encoding => q.identity.descriptor.encoding = upToNul c.identity.descriptor.encoding
  | .messageVersion => q.identity.descriptor.version = c.identity.descriptor.version
  | .layoutVersion | .headerSize | .slotStride | .regionSize | .retired => True

theorem HoldsName.equals {field : NameField} {value other : Bytes} (h : HoldsName field value)
    (he : nameEquals field other = true) : other = upToNul value := by
  obtain ⟨old, fits, rfl⟩ := h
  exact (nameEquals_storeName old value other fits).mp he

theorem Complete.agrees {o : Object} (h : Complete o) {q : Accepted} {size : Nat} {check : Check}
    (hp : passes q size o.header check = true) : Agrees o.creator q check := by
  have hstored : ∀ f, f ∈ headerStores → Stored o.creator o.header f := h.stored
  cases check with
  | topicName => exact HoldsName.equals (hstored .topicName (by decide)) hp
  | typeName => exact HoldsName.equals (hstored .typeName (by decide)) hp
  | encoding => exact HoldsName.equals (hstored .encoding (by decide)) hp
  | slotPayloadSize => exact (of_decide_eq_true hp).symm.trans (hstored .slotPayloadSize (by decide))
  | slotCount => exact (of_decide_eq_true hp).symm.trans (hstored .slotCount (by decide))
  | messageVersion => exact (of_decide_eq_true hp).symm.trans (hstored .messageVersion (by decide))
  | layoutVersion => trivial
  | headerSize => trivial
  | slotStride => trivial
  | regionSize => trivial
  | retired => trivial

/-! ## The invariant -/

/-- The call owns the object, whose magic it has not stored. -/
structure Owns (s : St) (k : Nat) (q : Accepted) (x : Nat) (o : Object) : Prop where
  object : s.objects x = some o
  owner : o.owner = k
  creator : o.creator = q
  magic : o.header.magic = 0

/-- An attached call: it made the object, or it passed every comparison with it. -/
def Attached (s : St) (q : Accepted) (x : Nat) (created : Bool) : Prop :=
  ∃ o, s.objects x = some o ∧ Complete o
    ∧ if created then q = o.creator else ∀ check ∈ openerChecks, Agrees o.creator q check

def CallOk (s : St) (k : Nat) : Pc → Prop
  | .sizing q x | .mapping q x => ∃ o, Owns s k q x o
  | .storing q x rest => ∃ o, Owns s k q x o ∧ ∃ done, headerStores = done ++ rest ∧ ∀ f ∈ done, Stored q o.header f
  | .checking q x _ rest => ∃ o, s.objects x = some o ∧ Complete o
      ∧ ∃ done, openerChecks = done ++ rest ∧ ∀ check ∈ done, Agrees o.creator q check
  | .locking q x created | .succeeded q x created => Attached s q x created
  | .idle | .creating _ | .opening _ | .statting _ _ | .attaching _ _ _ | .polling _ _ _ | .failed _ | .dead => True

structure Inv (s : St) : Prop where
  fresh : ∀ x, s.next ≤ x → s.objects x = none
  magic : ∀ x o, s.objects x = some o → o.header.magic = 0 ∨ Complete o
  calls : ∀ k, CallOk s k (s.calls k)

theorem init_inv : Inv init where
  fresh _ _ := rfl
  magic _ _ h := by cases h
  calls _ := trivial

/-- An object changes without becoming less complete. -/
structure Grows (o o' : Object) : Prop where
  owner : o'.owner = o.owner
  creator : o'.creator = o.creator
  complete : Complete o → Complete o'

/-- What the owner relies on stays too. -/
structure Keeps (o o' : Object) : Prop extends Grows o o' where
  magic : o'.header.magic = o.header.magic
  stored : ∀ q f, Stored q o.header f → Stored q o'.header f

theorem Keeps.refl (o : Object) : Keeps o o := ⟨⟨rfl, rfl, fun h => h⟩, rfl, fun _ _ h => h⟩

theorem Owns.keep {s t : St} {k : Nat} {q : Accepted} {x : Nat} {o o' : Object} (h : Owns s k q x o)
    (ho : t.objects x = some o') (hk : Keeps o o') : Owns t k q x o' :=
  ⟨ho, hk.owner.trans h.owner, hk.creator.trans h.creator, hk.magic.trans h.magic⟩

theorem CallOk.frame {s t : St} {k : Nat} {pc : Pc} (h : CallOk s k pc)
    (hobjects : ∀ x o, s.objects x = some o →
      ∃ o', t.objects x = some o' ∧ Grows o o' ∧ (o.owner = k → Keeps o o')) : CallOk t k pc := by
  have hattached : ∀ q x created, Attached s q x created → Attached t q x created := by
    intro q x created h
    obtain ⟨o, ho, hc, hq⟩ := h
    obtain ⟨o', ho', hg, -⟩ := hobjects x o ho
    refine ⟨o', ho', hg.complete hc, ?_⟩
    rw [hg.creator]
    exact hq
  have howns : ∀ q x o, Owns s k q x o → ∃ o', Owns t k q x o' ∧ Keeps o o' := by
    intro q x o ho
    obtain ⟨o', ho', -, hk⟩ := hobjects x o ho.object
    exact ⟨o', ho.keep ho' (hk ho.owner), hk ho.owner⟩
  cases pc with
  | sizing q x =>
    obtain ⟨o, ho⟩ := h
    obtain ⟨o', ho', -⟩ := howns q x o ho
    exact ⟨o', ho'⟩
  | mapping q x =>
    obtain ⟨o, ho⟩ := h
    obtain ⟨o', ho', -⟩ := howns q x o ho
    exact ⟨o', ho'⟩
  | storing q x rest =>
    obtain ⟨o, ho, done, hsplit, hdone⟩ := h
    obtain ⟨o', ho', hk⟩ := howns q x o ho
    exact ⟨o', ho', done, hsplit, fun f hf => hk.stored q f (hdone f hf)⟩
  | checking q x size rest =>
    obtain ⟨o, ho, hc, done, hsplit, hdone⟩ := h
    obtain ⟨o', ho', hg, -⟩ := hobjects x o ho
    exact ⟨o', ho', hg.complete hc, done, hsplit, fun check hcheck => by rw [hg.creator]; exact hdone check hcheck⟩
  | locking q x created => exact hattached q x created h
  | succeeded q x created => exact hattached q x created h
  | _ => trivial

/-- What a call relies on is in the objects. -/
theorem CallOk.of_objects {s t : St} {k : Nat} {pc : Pc} (h : CallOk s k pc) (hobjects : t.objects = s.objects) :
    CallOk t k pc := by
  apply h.frame
  intro x o ho
  exact ⟨o, by rw [hobjects]; exact ho, (Keeps.refl o).toGrows, fun _ => Keeps.refl o⟩

/-! ## One step -/

theorem Inv.set_call {s : St} (hi : Inv s) {k : Nat} {pc : Pc} (hpc : CallOk s k pc) : Inv (setCall s k pc) := by
  refine ⟨hi.fresh, hi.magic, ?_⟩
  intro j
  by_cases e : j = k
  · subst e
    simpa only [setCall, Function.update_self] using hpc.of_objects (t := setCall s j pc) rfl
  · simpa only [setCall, Function.update_of_ne e] using (hi.calls j).of_objects (t := setCall s k pc) rfl

theorem Inv.set_name {s : St} (hi : Inv s) (name : Option Nat) : Inv { s with name := name } :=
  ⟨hi.fresh, hi.magic, fun k => (hi.calls k).of_objects rfl⟩

/-- The owner of an object, or somebody who touches nothing it relies on, changes it. -/
theorem Inv.set_object {s : St} (hi : Inv s) {k : Nat} {x : Nat} {o o' : Object} {pc : Pc} (ho : s.objects x = some o)
    (hg : Grows o o') (hothers : ∀ j, j ≠ k → o.owner = j → Keeps o o')
    (hmagic : o'.header.magic = 0 ∨ Complete o') (hpc : CallOk (setObject s x o') k pc) :
    Inv (setCall (setObject s x o') k pc) := by
  have hat : ∀ y p, s.objects y = some p → ∃ p', (setObject s x o').objects y = some p' ∧ Grows p p'
      ∧ (y ≠ x → p' = p) ∧ (y = x → p = o ∧ p' = o') := by
    intro y p hp
    by_cases e : y = x
    · subst e
      cases ho.symm.trans hp
      exact ⟨o', by simp [setObject], hg, fun hne => absurd rfl hne, fun _ => ⟨rfl, rfl⟩⟩
    · exact ⟨p, by simpa [setObject, e] using hp, (Keeps.refl p).toGrows, fun _ => rfl, fun h => absurd h e⟩
  refine ⟨?_, ?_, ?_⟩
  · intro y hy
    have hne : y ≠ x := by
      rintro rfl
      rw [hi.fresh y hy] at ho
      cases ho
    simpa [setCall, setObject, hne] using hi.fresh y hy
  · intro y p hp
    by_cases e : y = x
    · subst e
      have : p = o' := by simpa [setCall, setObject] using hp.symm
      rw [this]
      exact hmagic
    · exact hi.magic y p (by simpa [setCall, setObject, e] using hp)
  · intro j
    by_cases e : j = k
    · subst e
      simpa only [setCall, Function.update_self] using hpc.of_objects (t := setCall (setObject s x o') j pc) rfl
    · have hcall : (setCall (setObject s x o') k pc).calls j = s.calls j := by simp [setCall, setObject, e]
      rw [hcall]
      apply (hi.calls j).frame
      intro y p hp
      obtain ⟨p', hp', hgrows, hother, hself⟩ := hat y p hp
      refine ⟨p', hp', hgrows, fun howner => ?_⟩
      by_cases ey : y = x
      · obtain ⟨rfl, rfl⟩ := hself ey
        exact hothers j e howner
      · rw [hother ey]
        exact Keeps.refl p

theorem Inv.create_object {s : St} (hi : Inv s) (k : Nat) (q : Accepted) : Inv (createObject s k q) := by
  have hold : ∀ x o, s.objects x = some o → (createObject s k q).objects x = some o := by
    intro x o ho
    have hne : x ≠ s.next := by
      rintro rfl
      rw [hi.fresh _ (Nat.le_refl _)] at ho
      cases ho
    simpa [createObject, hne] using ho
  refine ⟨?_, ?_, ?_⟩
  · intro x hx
    have hle : s.next + 1 ≤ x := hx
    have hne : x ≠ s.next := by omega
    simpa [createObject, hne] using hi.fresh x (by omega)
  · intro x o ho
    by_cases e : x = s.next
    · subst e
      have : o = ⟨k, q, 0, .zero⟩ := by simpa [createObject] using ho.symm
      rw [this]
      exact .inl rfl
    · exact hi.magic x o (by simpa [createObject, e] using ho)
  · intro j
    by_cases e : j = k
    · subst e
      have hpc : (createObject s j q).calls j = .sizing q s.next := by simp [createObject, setCall]
      rw [hpc]
      exact ⟨⟨j, q, 0, .zero⟩, by simp [createObject], rfl, rfl, rfl⟩
    · have hpc : (createObject s k q).calls j = s.calls j := by simp [createObject, setCall, e]
      rw [hpc]
      exact (hi.calls j).frame fun x o ho => ⟨o, hold x o ho, (Keeps.refl o).toGrows, fun _ => Keeps.refl o⟩

theorem kMagic_ne_zero : kMagic ≠ 0 := by decide

/-- The stores up to and including the next one. -/
theorem stored_next {q : Accepted} {h : Header} {done : List Field} (field : Field)
    (hdone : ∀ f ∈ done, Stored q h f) : ∀ f ∈ done ++ [field], Stored q (storeField q h field) f := by
  intro f hf
  rcases List.mem_append.mp hf with hf | hf
  · exact (hdone f hf).store field
  · rw [List.mem_singleton.mp hf]
    exact stored_self q h field

theorem Inv.store_field {s : St} (hi : Inv s) {k : Nat} {q : Accepted} {x : Nat} {o : Object} {field : Field}
    {rest done : List Field} (ho : Owns s k q x o) (hsplit : headerStores = done ++ field :: rest)
    (hdone : ∀ f ∈ done, Stored q o.header f) :
    Inv (setCall (setObject s x { o with header := storeField q o.header field }) k
      (if rest.isEmpty then .locking q x true else .storing q x rest)) := by
  have hnext := stored_next field hdone
  have hgrows : Grows o { o with header := storeField q o.header field } := by
    refine ⟨rfl, rfl, fun hc => ?_⟩
    have := hc.magic
    rw [ho.magic] at this
    exact absurd this.symm kMagic_ne_zero
  have hothers : ∀ j, j ≠ k → o.owner = j → Keeps o { o with header := storeField q o.header field } := by
    intro j hne hj
    exact absurd (hj.symm.trans ho.owner) hne
  have hat : (setObject s x { o with header := storeField q o.header field }).objects x
      = some { o with header := storeField q o.header field } := by simp [setObject]
  by_cases hlast : field = .magic
  · -- the last store completes the header
    have hrest : rest = [] := (headerStores_end hsplit).mpr hlast
    subst hlast hrest
    have hcomplete : Complete { o with header := storeField q o.header .magic } := by
      refine ⟨rfl, fun f hf => ?_⟩
      show Stored o.creator (storeField q o.header .magic) f
      rw [ho.creator]
      exact hnext f (hsplit ▸ hf)
    refine hi.set_object ho.object hgrows hothers (.inr hcomplete) ?_
    exact ⟨_, hat, hcomplete, ho.creator.symm⟩
  · have hrest : rest ≠ [] := fun h => hlast ((headerStores_end hsplit).mp h)
    have hmagic : (storeField q o.header field).magic = 0 := (magic_storeField hlast).trans ho.magic
    refine hi.set_object ho.object hgrows hothers (.inl hmagic) ?_
    rw [if_neg (by simpa using hrest)]
    refine ⟨_, ⟨hat, ho.owner, ho.creator, hmagic⟩, done ++ [field], ?_, hnext⟩
    rw [hsplit, List.append_assoc]
    rfl

theorem Inv.retire {s : St} (hi : Inv s) {x : Nat} {o : Object} (ho : s.objects x = some o) (flags : Nat) :
    Inv (setObject s x { o with header := { o.header with flags := flags } }) := by
  have hstored : ∀ q f, Stored q o.header f → Stored q { o.header with flags := flags } f := by
    intro q f hf
    cases f <;> exact hf
  have hkeeps : Keeps o { o with header := { o.header with flags := flags } } :=
    ⟨⟨rfl, rfl, fun hc => ⟨hc.magic, fun f hf => hstored _ f (hc.stored f hf)⟩⟩, rfl, hstored⟩
  have hmagic : o.header.magic = 0 ∨ Complete { o with header := { o.header with flags := flags } } :=
    (hi.magic x o ho).imp (fun h => h) hkeeps.complete
  have hcall : CallOk (setObject s x { o with header := { o.header with flags := flags } }) 0 (s.calls 0) := by
    apply (hi.calls 0).frame
    intro y p hp
    by_cases e : y = x
    · subst e
      cases ho.symm.trans hp
      exact ⟨_, by simp [setObject], hkeeps.toGrows, fun _ => hkeeps⟩
    · exact ⟨p, by simpa [setObject, e] using hp, (Keeps.refl p).toGrows, fun _ => Keeps.refl p⟩
  have hset := hi.set_object (k := 0) ho hkeeps.toGrows (fun _ _ _ => hkeeps) hmagic hcall
  have hsame : setCall (setObject s x { o with header := { o.header with flags := flags } }) 0 (s.calls 0)
      = setObject s x { o with header := { o.header with flags := flags } } := by
    simp [setCall, setObject]
  rw [hsame] at hset
  exact hset

theorem Inv.size_region {s : St} (hi : Inv s) {k : Nat} {q : Accepted} {x : Nat} {o : Object} (ho : Owns s k q x o)
    (size : Nat) : Inv (setCall (setObject s x { o with size := size }) k (.mapping q x)) := by
  have hkeeps : Keeps o { o with size := size } :=
    ⟨⟨rfl, rfl, fun hc => ⟨hc.magic, hc.stored⟩⟩, rfl, fun _ _ h => h⟩
  refine hi.set_object ho.object hkeeps.toGrows (fun _ _ _ => hkeeps) (.inl ho.magic) ?_
  exact ⟨{ o with size := size }, by simp [setObject], ho.owner, ho.creator, ho.magic⟩

/-- A comparison that passed joins the ones before. -/
theorem Inv.pass_check {s : St} (hi : Inv s) {k : Nat} {q : Accepted} {x size : Nat} {o : Object} {check : Check}
    {rest done : List Check} (ho : s.objects x = some o) (hc : Complete o)
    (hsplit : openerChecks = done ++ check :: rest) (hdone : ∀ c ∈ done, Agrees o.creator q c)
    (hp : passes q size o.header check = true) :
    Inv (setCall s k (if rest.isEmpty then .locking q x false else .checking q x size rest)) := by
  have hnext : ∀ c ∈ done ++ [check], Agrees o.creator q c := by
    intro c hmem
    rcases List.mem_append.mp hmem with hmem | hmem
    · exact hdone c hmem
    · rw [List.mem_singleton.mp hmem]
      exact hc.agrees hp
  have hsplit' : openerChecks = (done ++ [check]) ++ rest := by
    rw [hsplit, List.append_assoc]
    rfl
  apply hi.set_call
  cases rest with
  | nil =>
    rw [List.append_nil] at hsplit'
    exact ⟨o, ho, hc, fun c hmem => hnext c (hsplit' ▸ hmem)⟩
  | cons next rest => exact ⟨o, ho, hc, done ++ [check], hsplit', hnext⟩

variable {name : Bytes}

section Moves

variable {s t : St} {k : Nat}

theorem Inv.fail (hi : Inv s) (k : Nat) (status : Status) : Inv (setCall s k (.failed status)) := hi.set_call trivial

theorem Inv.call {request : Request} (hi : Inv s) (hs : step name s (.call k request) = some t) : Inv t := by
  unfold step at hs
  dsimp only at hs
  split at hs
  · split at hs
    · split at hs
      · cases hs
        exact hi.fail k _
      · cases hs
        apply hi.set_call
        split
        · trivial
        · trivial
    · cases hs
  · cases hs

theorem Inv.create {errno : Option Bytes} (hi : Inv s) (hs : step name s (.create k errno) = some t) : Inv t := by
  unfold step at hs
  dsimp only at hs
  split at hs
  · split at hs
    · cases hs
      exact hi.fail k _
    · cases hs
      exact hi.set_call trivial
    · cases hs
      exact hi.create_object k _
  · cases hs

theorem Inv.size {errno : Option Bytes} (hi : Inv s) (hs : step name s (.size k errno) = some t) : Inv t := by
  unfold step at hs
  dsimp only at hs
  split at hs
  · rename_i q x hpc
    split at hs
    · cases hs
      exact (hi.fail k _).set_name none
    · obtain ⟨o, ho, rfl⟩ := Option.map_eq_some_iff.mp hs
      have hcall := hi.calls k
      rw [hpc] at hcall
      obtain ⟨o', ho'⟩ := hcall
      cases ho.symm.trans ho'.object
      exact hi.size_region ho' _
  · cases hs

theorem Inv.open_ {errno : Option Bytes} (hi : Inv s) (hs : step name s (.open_ k errno) = some t) : Inv t := by
  unfold step at hs
  dsimp only at hs
  split at hs
  · split at hs
    · split at hs
      · cases hs
        exact hi.fail k _
      · cases hs
        exact hi.fail k _
    · cases hs
      exact hi.fail k _
    · cases hs
      exact hi.set_call trivial
  · cases hs

theorem Inv.stat {errno : Option Bytes} (hi : Inv s) (hs : step name s (.stat k errno) = some t) : Inv t := by
  unfold step at hs
  dsimp only at hs
  split at hs
  · split at hs
    · cases hs
      exact hi.fail k _
    · obtain ⟨o, -, hs⟩ := Option.bind_eq_some_iff.mp hs
      split at hs
      · cases hs
        exact hi.set_call trivial
      · cases hs
  · cases hs

theorem Inv.map {errno : Option Bytes} (hi : Inv s) (hs : step name s (.map k errno) = some t) : Inv t := by
  have hcall := hi.calls k
  unfold step at hs
  dsimp only at hs
  split at hs
  · rename_i q x hpc
    cases hs
    rw [hpc] at hcall
    obtain ⟨o, ho⟩ := hcall
    exact hi.set_call ⟨o, ho, [], rfl, fun f hf => (by cases hf)⟩
  · split at hs
    · cases hs
      exact hi.fail k _
    · cases hs
      exact hi.set_call trivial
  · cases hs
    exact hi.fail k _
  · cases hs
    exact hi.fail k _
  · cases hs

theorem Inv.timeout (hi : Inv s) (hs : step name s (.timeout k) = some t) : Inv t := by
  unfold step at hs
  dsimp only at hs
  split at hs
  · cases hs
    exact hi.fail k _
  · cases hs
    exact hi.fail k _
  · cases hs

theorem Inv.store {failure : Option Bytes} (hi : Inv s) (hs : step name s (.store k failure) = some t) : Inv t := by
  unfold step at hs
  dsimp only at hs
  split at hs
  · rename_i q x field rest hpc
    have hcall := hi.calls k
    rw [hpc] at hcall
    obtain ⟨o, ho, done, hsplit, hdone⟩ := hcall
    obtain ⟨o', ho', rfl⟩ := Option.map_eq_some_iff.mp hs
    cases ho'.symm.trans ho.object
    dsimp only
    split
    · exact (hi.fail k _).set_name none
    · exact hi.store_field ho hsplit hdone
  · cases hs

theorem Inv.poll (hi : Inv s) (hs : step name s (.poll k) = some t) : Inv t := by
  unfold step at hs
  dsimp only at hs
  split at hs
  · rename_i q x size hpc
    obtain ⟨o, ho, rfl⟩ := Option.map_eq_some_iff.mp hs
    split
    · rename_i hmagic
      have hc : Complete o := by
        rcases hi.magic x o ho with h | h
        · rw [h] at hmagic
          exact absurd hmagic.symm kMagic_ne_zero
        · exact h
      exact hi.set_call ⟨o, ho, hc, [], rfl, fun c hmem => (by cases hmem)⟩
    · exact hi
  · cases hs

theorem Inv.check (hi : Inv s) (hs : step name s (.check k) = some t) : Inv t := by
  unfold step at hs
  dsimp only at hs
  split at hs
  · rename_i q x size check rest hpc
    have hcall := hi.calls k
    rw [hpc] at hcall
    obtain ⟨o, ho, hc, done, hsplit, hdone⟩ := hcall
    obtain ⟨o', ho', rfl⟩ := Option.map_eq_some_iff.mp hs
    cases ho'.symm.trans ho
    split
    · rename_i hp
      exact hi.pass_check ho hc hsplit hdone hp
    · exact hi.fail k _
  · cases hs

theorem Inv.lock {failure : Option Status} (hi : Inv s) (hs : step name s (.lock k failure) = some t) : Inv t := by
  unfold step at hs
  dsimp only at hs
  split at hs
  · rename_i q x created hpc
    have hcall := hi.calls k
    rw [hpc] at hcall
    split at hs
    · cases hs
      exact hi.fail k _
    · cases hs
      exact hi.set_call hcall
  · cases hs

end Moves

theorem step_inv {s t : St} {act : Act} (hi : Inv s) (hs : step name s act = some t) : Inv t := by
  cases act with
  | call k request => exact hi.call hs
  | create k errno => exact hi.create hs
  | size k errno => exact hi.size hs
  | open_ k errno => exact hi.open_ hs
  | stat k errno => exact hi.stat hs
  | map k errno => exact hi.map hs
  | timeout k => exact hi.timeout hs
  | store k failure => exact hi.store hs
  | poll k => exact hi.poll hs
  | check k => exact hi.check hs
  | lock k failure => exact hi.lock hs
  | die k =>
    cases hs
    exact hi.set_call trivial
  | unlink =>
    cases hs
    exact hi.set_name none
  | retire x =>
    obtain ⟨o, ho, rfl⟩ := Option.map_eq_some_iff.mp hs
    exact hi.retire ho _

theorem reach_inv {s : St} {ok : St → Act → Prop} (h : Reach (step name) ok (· = init) s) : Inv s :=
  h.invariant (fun _ hs => hs ▸ init_inv) fun _ _ _ hi _ hs => step_inv hi hs

/-! ## Attached processes -/

def Identity.nulFree (identity : Identity) : Bool :=
  decide (0 ∉ identity.topic) && decide (0 ∉ identity.descriptor.typeName)
    && decide (0 ∉ identity.descriptor.encoding)

/-- The identity that an opener of this one's segment has to ask for. -/
def Identity.upToNul (identity : Identity) : Identity :=
  ⟨Open.upToNul identity.topic, ⟨Open.upToNul identity.descriptor.typeName, Open.upToNul identity.descriptor.encoding,
    identity.descriptor.version⟩⟩

theorem Identity.upToNul_eq_self {identity : Identity} : identity.upToNul = identity ↔ identity.nulFree = true := by
  obtain ⟨topic, typeName, encoding, version⟩ := identity
  simp only [Identity.upToNul, Identity.nulFree, Identity.mk.injEq, MessageDescriptor.mk.injEq, Open.upToNul_eq_self,
    Bool.and_eq_true, decide_eq_true_eq, and_true, and_assoc]

theorem geometry_ext {a b : SegmentGeometry} (hsize : a.slotPayloadSize = b.slotPayloadSize)
    (hcount : a.slotCount = b.slotCount) : a = b := by
  cases a
  cases b
  cases hsize
  cases hcount
  rfl

theorem identity_ext {a b : Identity} (htopic : a.topic = b.topic)
    (htype : a.descriptor.typeName = b.descriptor.typeName) (hencoding : a.descriptor.encoding = b.descriptor.encoding)
    (hversion : a.descriptor.version = b.descriptor.version) : a = b := by
  obtain ⟨topic, typeName, encoding, version⟩ := a
  obtain ⟨topic', typeName', encoding', version'⟩ := b
  cases htopic
  cases htype
  cases hencoding
  cases hversion
  rfl

/-- What an attached call asked for, in terms of what the segment's creator asked for. -/
theorem Attached.request {s : St} {q : Accepted} {x : Nat} {created : Bool} (h : Attached s q x created) :
    ∃ o, s.objects x = some o ∧ Complete o ∧ q.geometry = o.creator.geometry
      ∧ q.identity = if created then o.creator.identity else o.creator.identity.upToNul := by
  obtain ⟨o, ho, hc, hq⟩ := h
  refine ⟨o, ho, hc, ?_⟩
  cases created with
  | true =>
    have hq : q = o.creator := hq
    rw [hq]
    exact ⟨rfl, rfl⟩
  | false =>
    have hq : ∀ check ∈ openerChecks, Agrees o.creator q check := hq
    have hsize : Agrees o.creator q .slotPayloadSize := hq _ (by decide)
    have hcount : Agrees o.creator q .slotCount := hq _ (by decide)
    have htopic : Agrees o.creator q .topicName := hq _ (by decide)
    have htype : Agrees o.creator q .typeName := hq _ (by decide)
    have hencoding : Agrees o.creator q .encoding := hq _ (by decide)
    have hversion : Agrees o.creator q .messageVersion := hq _ (by decide)
    exact ⟨geometry_ext hsize hcount, identity_ext htopic htype hencoding hversion⟩

/-- All calls that attached to one object asked for the same geometry and version; they
    asked for the same identity exactly when both or neither made the object, or no string
    of its creator's contains a NUL. -/
theorem attached_processes_agree_iff {s : St} (h : Reach (step name) anyMove (· = init) s) {k l x : Nat}
    {q r : Accepted} {created created' : Bool} (hk : s.calls k = .succeeded q x created)
    (hl : s.calls l = .succeeded r x created') :
    ∃ o, s.objects x = some o ∧ Complete o ∧ q.geometry = r.geometry
      ∧ q.identity.descriptor.version = r.identity.descriptor.version
      ∧ (q.identity = r.identity ↔ created = created' ∨ o.creator.identity.nulFree = true) := by
  have hi := reach_inv h
  have hq : Attached s q x created := by
    have := hi.calls k
    rwa [hk] at this
  have hr : Attached s r x created' := by
    have := hi.calls l
    rwa [hl] at this
  obtain ⟨o, ho, hc, hgeometry, hidentity⟩ := hq.request
  obtain ⟨o', ho', -, hgeometry', hidentity'⟩ := hr.request
  cases ho.symm.trans ho'
  refine ⟨o, ho, hc, hgeometry.trans hgeometry'.symm, ?_, ?_⟩
  · rw [hidentity, hidentity']
    cases created <;> cases created' <;> rfl
  · rw [hidentity, hidentity', ← Identity.upToNul_eq_self]
    cases created with
    | false =>
      cases created' with
      | false => simp
      | true => simp
    | true =>
      cases created' with
      | false => simp [eq_comm]
      | true => simp

/-! ## Two runs -/

/-- A request for topic `t` with two slots of eight bytes. -/
def requestOf (typeName : Bytes) : Request := ⟨0, ⟨[116], ⟨typeName, [120], 1⟩⟩, ⟨8, 2⟩, true⟩

/-- Call 0 makes the object and completes it, call 1 attaches to it. -/
def createThenAttach (creator opener : Bytes) : List Act :=
  [Act.call 0 (requestOf creator), .create 0 none, .size 0 none, .map 0 none] ++ List.replicate 13 (Act.store 0 none)
    ++ [Act.lock 0 none, .call 1 (requestOf opener), .create 1 none, .open_ 1 none, .stat 1 none, .map 1 none, .poll 1]
    ++ List.replicate 11 (Act.check 1) ++ [Act.lock 1 none]

/-- Both calls succeeded on object 0, with these type names. -/
def bothAttached (creator opener : Bytes) (s : St) : Bool :=
  match s.calls 0, s.calls 1 with
  | .succeeded q 0 true, .succeeded r 0 false =>
    decide (q.identity.descriptor.typeName = creator ∧ r.identity.descriptor.typeName = opener)
  | _, _ => false

theorem bothAttached_some {creator opener : Bytes} {s : St} (h : bothAttached creator opener s = true) :
    ∃ q r, s.calls 0 = .succeeded q 0 true ∧ s.calls 1 = .succeeded r 0 false
      ∧ q.identity.descriptor.typeName = creator ∧ r.identity.descriptor.typeName = opener := by
  unfold bothAttached at h
  split at h
  · rename_i q r h0 h1
    exact ⟨q, r, h0, h1, of_decide_eq_true h⟩
  · cases h

theorem two_processes_attach_to_type_ab :
    ∃ (s : St) (q r : Accepted), s.calls 0 = .succeeded q 0 true ∧ s.calls 1 = .succeeded r 0 false
      ∧ q.geometry = r.geometry ∧ ∃ o, s.objects 0 = some o ∧ Complete o := by
  obtain ⟨s, hs, hp⟩ : ∃ s, Reach (step (objectName 0 [116])) anyMove (· = init) s
      ∧ bothAttached [97, 98] [97, 98] s = true :=
    reach_of_run (createThenAttach [97, 98] [97, 98]) _ rfl (by decide +kernel)
  obtain ⟨q, r, h0, h1, -, -⟩ := bothAttached_some hp
  obtain ⟨o, ho, hc, hgeometry, -⟩ := attached_processes_agree_iff hs h0 h1
  exact ⟨s, q, r, h0, h1, hgeometry, o, ho, hc⟩

/-- The creator's type name is `a`, a NUL and `b`; the opener's is `a`. -/
theorem a_nul_hides_the_rest_of_the_type_name :
    ∃ (s : St) (q r : Accepted), Reach (step (objectName 0 [116])) anyMove (· = init) s
      ∧ s.calls 0 = .succeeded q 0 true ∧ s.calls 1 = .succeeded r 0 false ∧ q.identity ≠ r.identity := by
  obtain ⟨s, hs, hp⟩ : ∃ s, Reach (step (objectName 0 [116])) anyMove (· = init) s
      ∧ bothAttached [97, 0, 98] [97] s = true :=
    reach_of_run (createThenAttach [97, 0, 98] [97]) _ rfl (by decide +kernel)
  obtain ⟨q, r, h0, h1, hq, hr⟩ := bothAttached_some hp
  refine ⟨s, q, r, hs, h0, h1, fun he => ?_⟩
  have := congrArg (fun identity => identity.descriptor.typeName) he
  simp only [hq, hr] at this
  cases this

end PuppetMaster.Shm.Open
