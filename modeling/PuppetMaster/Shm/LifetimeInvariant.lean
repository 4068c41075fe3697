/-
  PuppetMaster.Shm.LifetimeInvariant — the invariant of `PuppetMaster.Shm.Lifetime`.

  It rests on three facts. Whoever is attached or attaching to an object that is
  initialised and not retired finds it under the name (`Inv.named`). Only the one reader's
  own attachment can retire an object, and it does so once (`AttachmentOk.living`,
  `Inv.oneRetirer`). Only the one reader creates an object, and only when the name is
  free.

  `Frame` is what a thread relies on while others move. `Inv.move` gives the invariant
  after any move of one thread, `Inv.move_le` after one that adds nothing, `Inv.settle`
  after one that only counts, closes or gives up what is the thread's own.
-/

import PuppetMaster.Shm.Lifetime

namespace PuppetMaster.Shm.Lifetime

open PuppetMaster.Lib
open PuppetMaster.Shm.Participants (kMaxParticipants Thread)

/-! ## The invariant -/

/-- Initialised and not retired, the object has the name. -/
def Named (s : St) (o : Nat) : Prop :=
  (s.objects o).ready = true → (s.objects o).retired = false → s.name = some o

def blank : Object := ⟨false, false, []⟩

/-- The attachment whose retirement a thread has begun. -/
def retiring : Pc → Option Nat
  | .retireFlag x _ | .unlink x _ => some x
  | _ => none

/-- Attachment `x` belongs to the process of `τ`, and `P` holds of it. -/
def Mine (s : St) (τ : Thread) (x : Nat) (P : Attachment → Prop) : Prop :=
  ∃ t, s.attachments x = some t ∧ t.process = τ.1 ∧ P t

def ThreadOk (s : St) (τ : Thread) : Pc → Prop
  | .idle => True
  | .excl => s.life = some (.creating τ)
  | .reopening kind => kind = .reader → s.life = some (.creating τ)
  | .initializing o => s.life = some (.creating τ) ∧ o < s.nextObject ∧ s.name = some o ∧ s.objects o = blank
  | .checking kind o => o < s.nextObject ∧ (kind = .reader → s.life = some (.creating τ))
  | .claiming kind o => o < s.nextObject ∧ (s.objects o).ready = true ∧
      (kind = .reader → s.life = some (.creating τ) ∧ (s.objects o).retired = false)
  | .notifier kind x => Mine s τ x fun t =>
      kind = .reader → s.life = some (.creating τ) ∧ (s.objects t.object).retired = false
  | .adding x => s.life = some (.creating τ) ∧ Mine s τ x fun t => (s.objects t.object).retired = false
  | .removingReader x => Mine s τ x fun t => t.hadReader = true
  | .exchange x _ => Mine s τ x fun t => t.hadReader = true ∧ t.readers = 0
  | .retireFlag x _ => s.life = some (.reading x) ∧ Mine s τ x fun t => t.retiredByMe = true
  | .unlink x _ => s.life = some (.reading x) ∧
      Mine s τ x fun t => t.retiredByMe = true ∧ (s.objects t.object).retired = true
  | .releasing x had _ => Mine s τ x fun t => t.closed = true ∧ (had = true → t.hadReader = true)
  | .dropping x | .closing x _ | .retiredCheck x _ | .liveCheck x _ | .removing x _ => Mine s τ x fun _ => True

structure AttachmentOk (s : St) (x : Nat) (t : Attachment) : Prop where
  joined : t.closed = false → x ∈ (s.objects t.object).participants
  readers : 0 < t.readers → t.closed = false ∧ t.hadReader = true ∧ t.retiredByMe = false
  endpoints : 0 < t.readerEndpoints → t.hadReader = true
  living : t.hadReader = true → t.retiredByMe = false → s.life = some (.reading x)
  gone : t.retiredByMe = true → (s.objects t.object).retired = true ∨ s.life = some (.reading x)

/-- The attachment of the one reader: nobody else's object has the name. -/
structure LifeOk (s : St) (t : Attachment) : Prop where
  alive : s.crashed t.process = false
  name : s.name = some t.object ∨ s.name = none
  unretired : t.retiredByMe = false → (s.objects t.object).retired = false

structure Inv (s : St) : Prop where
  fresh : ∀ x, s.nextAttachment ≤ x → s.attachments x = none
  older : ∀ x t, s.attachments x = some t → t.object < s.nextObject
  resolved : ∀ o, s.name = some o → o < s.nextObject
  known : ∀ o x, x ∈ (s.objects o).participants → (s.objects o).ready = true ∧
    ∃ t, s.attachments x = some t ∧ t.object = o
  named : ∀ o, Attached s o → Named s o
  registry : ∀ p x, s.registry p = some x → ∃ t, s.attachments x = some t ∧ t.process = p
  threads : ∀ τ, s.crashed τ.1 = false → ThreadOk s τ (s.threads τ)
  attachments : ∀ x t, s.attachments x = some t → s.crashed t.process = false → AttachmentOk s x t
  life : ∀ x, s.life = some (.reading x) → ∃ t, s.attachments x = some t ∧ LifeOk s t
  oneRetirer : ∀ τ σ x, s.crashed τ.1 = false → s.crashed σ.1 = false → retiring (s.threads τ) = some x →
    retiring (s.threads σ) = some x → τ = σ

theorem init_inv : Inv init where
  fresh x _ := rfl
  older x t h := by cases h
  resolved o h := by cases h
  known o x h := by cases h
  named o h := by
    rcases h with ⟨x, hx, -⟩ | ⟨τ, -, h⟩
    · cases hx
    · cases h
  registry p x h := by cases h
  threads τ _ := trivial
  attachments x t h := by cases h
  life x h := by cases h
  oneRetirer τ σ x _ _ h := by cases h

/-! ## Frames -/

/-- What other threads may do to an attachment. -/
structure Attachment.Le (t t' : Attachment) : Prop where
  process : t'.process = t.process
  object : t'.object = t.object
  hadReader : t.hadReader = true → t'.hadReader = true
  closed : t.closed = true → t'.closed = true
  retiredByMe : t.retiredByMe = true → t'.retiredByMe = true
  readers : t.hadReader = true → t.readers = 0 → t'.readers = 0

theorem Attachment.Le.refl (t : Attachment) : t.Le t := ⟨rfl, rfl, id, id, id, fun _ => id⟩

/-- From `s` to `s'` thread `σ` keeps what it relies on. -/
structure Frame (s s' : St) (σ : Thread) : Prop where
  attachments : ∀ x t, s.attachments x = some t → ∃ t', s'.attachments x = some t' ∧ t.Le t'
  objects : s.nextObject ≤ s'.nextObject
  ready : ∀ o, o < s.nextObject → (s.objects o).ready = true → (s'.objects o).ready = true
  retired : ∀ o, o < s.nextObject → (s.objects o).retired = true → (s'.objects o).retired = true
  creating : s.life = some (.creating σ) → s'.life = some (.creating σ) ∧
    ∀ o, o < s.nextObject → (s.objects o).retired = false → (s'.objects o).retired = false
  initializing : ∀ o, s.threads σ = .initializing o → s.life = some (.creating σ) → s.name = some o →
    s.objects o = blank → s'.name = some o ∧ s'.objects o = blank
  reading : ∀ x, retiring (s.threads σ) = some x → s.life = some (.reading x) → s'.life = some (.reading x)

theorem Mine.frame {s s' : St} {σ : Thread} {x : Nat} {P Q : Attachment → Prop} (h : Mine s σ x P)
    (hatt : ∀ x t, s.attachments x = some t → ∃ t', s'.attachments x = some t' ∧ t.Le t')
    (hPQ : ∀ t t', s.attachments x = some t → t.Le t' → P t → Q t') : Mine s' σ x Q := by
  obtain ⟨t, ht, hp, hP⟩ := h
  obtain ⟨t', ht', hle⟩ := hatt x t ht
  exact ⟨t', ht', hle.process.trans hp, hPQ t t' ht hle hP⟩

theorem ThreadOk.frame {s s' : St} (hi : Inv s) {σ : Thread} (h : ThreadOk s σ (s.threads σ)) (hf : Frame s s' σ) :
    ThreadOk s' σ (s.threads σ) := by
  cases hpc : s.threads σ <;> rw [hpc] at h
  case idle => trivial
  case excl => exact (hf.creating h).1
  case reopening kind => exact fun hk => (hf.creating (h hk)).1
  case initializing o =>
    obtain ⟨h1, h2, h3, h4⟩ := h
    obtain ⟨h5, h6⟩ := hf.initializing o hpc h1 h3 h4
    exact ⟨(hf.creating h1).1, Nat.lt_of_lt_of_le h2 hf.objects, h5, h6⟩
  case checking kind o =>
    exact ⟨Nat.lt_of_lt_of_le h.1 hf.objects, fun hk => (hf.creating (h.2 hk)).1⟩
  case claiming kind o =>
    obtain ⟨h1, h2, h3⟩ := h
    refine ⟨Nat.lt_of_lt_of_le h1 hf.objects, hf.ready o h1 h2, fun hk => ?_⟩
    obtain ⟨h4, h5⟩ := hf.creating (h3 hk).1
    exact ⟨h4, h5 o h1 (h3 hk).2⟩
  case notifier kind x =>
    refine Mine.frame h hf.attachments fun t t' ht hle hP hk => ?_
    obtain ⟨h4, h5⟩ := hf.creating (hP hk).1
    rw [hle.object]
    exact ⟨h4, h5 _ (hi.older x t ht) (hP hk).2⟩
  case adding x =>
    obtain ⟨h4, h5⟩ := hf.creating h.1
    refine ⟨h4, Mine.frame h.2 hf.attachments fun t t' ht hle hP => ?_⟩
    rw [hle.object]
    exact h5 _ (hi.older x t ht) hP
  case removingReader x => exact Mine.frame h hf.attachments fun _ _ _ hle hP => hle.hadReader hP
  case exchange x held =>
    exact Mine.frame h hf.attachments fun _ _ _ hle hP => ⟨hle.hadReader hP.1, hle.readers hP.1 hP.2⟩
  case retireFlag x held =>
    exact ⟨hf.reading x (by rw [hpc]; rfl) h.1, Mine.frame h.2 hf.attachments fun _ _ _ hle hP => hle.retiredByMe hP⟩
  case unlink x held =>
    refine ⟨hf.reading x (by rw [hpc]; rfl) h.1, Mine.frame h.2 hf.attachments fun t _ ht hle hP =>
      ⟨hle.retiredByMe hP.1, ?_⟩⟩
    rw [hle.object]
    exact hf.retired _ (hi.older x t ht) hP.2
  case releasing x had held =>
    exact Mine.frame h hf.attachments fun _ _ _ hle hP => ⟨hle.closed hP.1, fun hh => hle.hadReader (hP.2 hh)⟩
  all_goals exact Mine.frame h hf.attachments fun _ _ _ _ _ => trivial

@[simp] theorem setAttachment_attachments (s : St) (x y : Nat) (f : Attachment → Attachment) :
    (setAttachment s x f).attachments y = if y = x then (s.attachments x).map f else s.attachments y := by
  simp [setAttachment, Function.update_apply]

@[simp] theorem setObject_objects (s : St) (o q : Nat) (f : Object → Object) :
    (setObject s o f).objects q = if q = o then f (s.objects o) else s.objects q := by
  simp [setObject, Function.update_apply]

/-- Attachments change by `R` only, and none comes or goes. -/
def Changed (R : Attachment → Attachment → Prop) (s s' : St) : Prop :=
  ∀ x, Option.Rel R (s.attachments x) (s'.attachments x)

theorem Changed.old {R : Attachment → Attachment → Prop} {s s' : St} (h : Changed R s s') {x : Nat} {t' : Attachment}
    (ht : s'.attachments x = some t') : ∃ t, s.attachments x = some t ∧ R t t' := by
  have hx := h x
  rw [ht] at hx
  cases hs : s.attachments x with
  | none => rw [hs] at hx; cases hx
  | some t => rw [hs] at hx; cases hx with | some hr => exact ⟨t, rfl, hr⟩

theorem Changed.new {R : Attachment → Attachment → Prop} {s s' : St} (h : Changed R s s') {x : Nat} {t : Attachment}
    (ht : s.attachments x = some t) : ∃ t', s'.attachments x = some t' ∧ R t t' := by
  have hx := h x
  rw [ht] at hx
  cases hs : s'.attachments x with
  | none => rw [hs] at hx; cases hx
  | some t' => rw [hs] at hx; cases hx with | some hr => exact ⟨t', rfl, hr⟩

theorem changed_of_eq {R : Attachment → Attachment → Prop} (hR : ∀ t, R t t) {s s' : St}
    (h : s'.attachments = s.attachments) : Changed R s s' := by
  intro x
  rw [h]
  cases s.attachments x with
  | none => exact .none
  | some t => exact .some (hR t)

theorem changed_setAttachment {R : Attachment → Attachment → Prop} (hR : ∀ t, R t t) {s s' : St} {x : Nat}
    {f : Attachment → Attachment} (h : s'.attachments = (setAttachment s x f).attachments)
    (hf : ∀ t, s.attachments x = some t → R t (f t)) : Changed R s s' := by
  intro y
  rw [h, setAttachment_attachments]
  by_cases e : y = x
  · subst e
    rw [if_pos rfl]
    cases ht : s.attachments y with
    | none => exact .none
    | some t => exact .some (hf t ht)
  · rw [if_neg e]
    cases s.attachments y with
    | none => exact .none
    | some t => exact .some (hR t)

/-! ## A thread moves -/

theorem Inv.move {s s' : St} (hi : Inv s) {τ : Thread} {pc : Pc} (hcr : s'.crashed = s.crashed)
    (hth : s'.threads = Function.update s.threads τ pc)
    (hfresh : ∀ x, s'.nextAttachment ≤ x → s'.attachments x = none)
    (holder : ∀ x t, s'.attachments x = some t → t.object < s'.nextObject)
    (hresolved : ∀ o, s'.name = some o → o < s'.nextObject)
    (hknown : ∀ o x, x ∈ (s'.objects o).participants → (s'.objects o).ready = true ∧
      ∃ t, s'.attachments x = some t ∧ t.object = o)
    (hnamed : ∀ o, Attached s' o → Named s' o)
    (hreg : ∀ p x, s'.registry p = some x → ∃ t, s'.attachments x = some t ∧ t.process = p)
    (hframe : ∀ σ, σ ≠ τ → s.crashed σ.1 = false → Frame s s' σ) (hpc : s.crashed τ.1 = false → ThreadOk s' τ pc)
    (hatt : ∀ x t, s'.attachments x = some t → s.crashed t.process = false → AttachmentOk s' x t)
    (hlife : ∀ x, s'.life = some (.reading x) → ∃ t, s'.attachments x = some t ∧ LifeOk s' t)
    (hone : ∀ x, retiring pc = some x → retiring (s.threads τ) = some x ∨
      ∀ σ, s.crashed σ.1 = false → retiring (s.threads σ) ≠ some x) : Inv s' := by
  refine ⟨hfresh, holder, hresolved, hknown, hnamed, hreg, fun σ hσ => ?_,
    fun x t ht hc => hatt x t ht (by rwa [hcr] at hc), hlife, fun σ ρ x hσ hρ h1 h2 => ?_⟩
  · rw [hcr] at hσ
    rw [hth]
    by_cases e : σ = τ
    · subst e
      rw [Function.update_self]
      exact hpc hσ
    · rw [Function.update_of_ne e]
      exact (hi.threads σ hσ).frame hi (hframe σ e hσ)
  · rw [hcr] at hσ hρ
    rw [hth] at h1 h2
    by_cases e : σ = τ <;> by_cases e' : ρ = τ
    · rw [e, e']
    · subst e
      rw [Function.update_self] at h1
      rw [Function.update_of_ne e'] at h2
      rcases hone x h1 with h | h
      · exact hi.oneRetirer σ ρ x hσ hρ h h2
      · exact absurd h2 (h ρ hρ)
    · subst e'
      rw [Function.update_self] at h2
      rw [Function.update_of_ne e] at h1
      rcases hone x h2 with h | h
      · exact hi.oneRetirer σ ρ x hσ hρ h1 h
      · exact absurd h1 (h σ hσ)
    · rw [Function.update_of_ne e] at h1
      rw [Function.update_of_ne e'] at h2
      exact hi.oneRetirer σ ρ x hσ hρ h1 h2

/-- Who is attached after a move that adds no participant. -/
theorem attached_of {s s' : St} {τ : Thread} {pc : Pc} (hcr : s'.crashed = s.crashed)
    (hth : s'.threads = Function.update s.threads τ pc)
    (hpart : ∀ o x, x ∈ (s'.objects o).participants → isLive s' x = true →
      x ∈ (s.objects o).participants ∧ isLive s x = true) {o : Nat} (h : Attached s' o) :
    Attached s o ∨ (s.crashed τ.1 = false ∧ attaching pc = some o) := by
  rcases h with ⟨x, hx, hl⟩ | ⟨σ, hσ, ha⟩
  · exact .inl (.inl ⟨x, hpart o x hx hl⟩)
  · rw [hcr] at hσ
    rw [hth] at ha
    by_cases e : σ = τ
    · subst e
      rw [Function.update_self] at ha
      exact .inr ⟨hσ, ha⟩
    · rw [Function.update_of_ne e] at ha
      exact .inl (.inr ⟨σ, hσ, ha⟩)

theorem isLive_of_le {s s' : St} (hcr : s'.crashed = s.crashed) (h : Changed Attachment.Le s s') (x : Nat) :
    isLive s' x = isLive s x := by
  unfold isLive
  rw [hcr]
  cases hs : s.attachments x with
  | none =>
    have hx := h x
    rw [hs] at hx
    cases hs' : s'.attachments x with
    | none => rfl
    | some t => rw [hs'] at hx; cases hx
  | some t =>
    obtain ⟨t', ht', hle⟩ := h.new hs
    rw [ht']
    simp only [hle.process]

/-- A move that adds no object, no attachment and no participant. -/
theorem Inv.move_le {s s' : St} (hi : Inv s) {τ : Thread} {pc : Pc} (hcr : s'.crashed = s.crashed)
    (hth : s'.threads = Function.update s.threads τ pc) (hno : s'.nextObject = s.nextObject)
    (hna : s'.nextAttachment = s.nextAttachment) (hle : Changed Attachment.Le s s')
    (hpart : ∀ o x, x ∈ (s'.objects o).participants → x ∈ (s.objects o).participants)
    (hready : ∀ o, (s.objects o).ready = true → (s'.objects o).ready = true)
    (hname : s'.name = s.name ∨ s'.name = none)
    (hnamed : ∀ o, Attached s o ∨ attaching pc = some o → Named s' o)
    (hreg : ∀ p x, s'.registry p = some x → ∃ t, s.attachments x = some t ∧ t.process = p)
    (hframe : ∀ σ, σ ≠ τ → s.crashed σ.1 = false → Frame s s' σ) (hpc : s.crashed τ.1 = false → ThreadOk s' τ pc)
    (hatt : ∀ x t, s'.attachments x = some t → s.crashed t.process = false → AttachmentOk s' x t)
    (hlife : ∀ x, s'.life = some (.reading x) → ∃ t, s'.attachments x = some t ∧ LifeOk s' t)
    (hone : ∀ x, retiring pc = some x → retiring (s.threads τ) = some x ∨
      ∀ σ, s.crashed σ.1 = false → retiring (s.threads σ) ≠ some x) : Inv s' := by
  refine hi.move hcr hth (fun x hx => ?_) (fun x t' ht' => ?_) (fun o ho => ?_) (fun o x hx => ?_) (fun o ho => ?_)
    (fun p x hp => ?_) hframe hpc hatt hlife hone
  · rw [hna] at hx
    have h1 := hi.fresh x hx
    cases hs' : s'.attachments x with
    | none => rfl
    | some t =>
      obtain ⟨t0, h0, -⟩ := hle.old hs'
      rw [h1] at h0
      cases h0
  · obtain ⟨t, ht, hc⟩ := hle.old ht'
    rw [hno, hc.object]
    exact hi.older x t ht
  · rw [hno]
    rcases hname with e | e
    · exact hi.resolved o (e ▸ ho)
    · rw [e] at ho; cases ho
  · obtain ⟨h1, t, ht, ho⟩ := hi.known o x (hpart o x hx)
    obtain ⟨t', ht', hc⟩ := hle.new ht
    exact ⟨hready o h1, t', ht', hc.object.trans ho⟩
  · have hold := attached_of hcr hth (fun o x hx hlv => by
      rw [isLive_of_le hcr hle] at hlv
      exact ⟨hpart o x hx, hlv⟩) ho
    exact hnamed o (hold.imp_right (·.2))
  · obtain ⟨t, ht, hp'⟩ := hreg p x hp
    obtain ⟨t', ht', hc⟩ := hle.new ht
    exact ⟨t', ht', hc.process.trans hp'⟩

/-! ## Moves that attach nobody and retire nothing -/

/-- References and endpoints are counted, readers go, the topic closes. -/
structure Attachment.Settled (t t' : Attachment) : Prop where
  process : t'.process = t.process
  object : t'.object = t.object
  hadReader : t'.hadReader = t.hadReader
  retiredByMe : t'.retiredByMe = t.retiredByMe
  closed : t.closed = true → t'.closed = true
  readers : t'.readers ≤ t.readers
  stillOpen : 0 < t'.readers → t'.closed = t.closed
  endpoints : 0 < t'.readerEndpoints → 0 < t.readerEndpoints

theorem Attachment.Settled.refl (t : Attachment) : t.Settled t := ⟨rfl, rfl, rfl, rfl, id, Nat.le_refl _, fun _ => rfl, id⟩

theorem Attachment.Settled.trans {a b c : Attachment} (h : a.Settled b) (h' : b.Settled c) : a.Settled c :=
  ⟨h'.process.trans h.process, h'.object.trans h.object, h'.hadReader.trans h.hadReader,
    h'.retiredByMe.trans h.retiredByMe, fun e => h'.closed (h.closed e), Nat.le_trans h'.readers h.readers,
    fun e => (h'.stillOpen e).trans (h.stillOpen (Nat.lt_of_lt_of_le e h'.readers)), fun e => h.endpoints (h'.endpoints e)⟩

/-- Shared pointers and writers are only counted. -/
theorem Attachment.Settled.recount (t : Attachment) (refs writerEndpoints : Nat) :
    t.Settled { t with refs := refs, writerEndpoints := writerEndpoints } :=
  ⟨rfl, rfl, rfl, rfl, id, Nat.le_refl _, fun _ => rfl, id⟩

theorem Attachment.Settled.shut (t : Attachment) : t.Settled { t with closed := true, readers := 0 } :=
  ⟨rfl, rfl, rfl, rfl, fun _ => rfl, Nat.zero_le _, fun e => absurd e (Nat.lt_irrefl 0), id⟩

theorem Attachment.Settled.le {t t' : Attachment} (h : t.Settled t') : t.Le t' :=
  ⟨h.process, h.object, fun e => h.hadReader.trans e, h.closed, fun e => h.retiredByMe.trans e,
    fun _ e => Nat.le_zero.mp (e ▸ h.readers)⟩

theorem Changed.imp {R Q : Attachment → Attachment → Prop} {s s' : St} (h : Changed R s s')
    (hRQ : ∀ t t', R t t' → Q t t') : Changed Q s s' := by
  intro x
  have hx := h x
  cases hs : s.attachments x with
  | none =>
    rw [hs] at hx
    cases hs' : s'.attachments x with
    | none => exact .none
    | some t => rw [hs'] at hx; cases hx
  | some t =>
    obtain ⟨t', ht', hr⟩ := h.new hs
    rw [ht']
    exact .some (hRQ _ _ hr)

theorem Changed.trans {s s' s'' : St} (h : Changed Attachment.Settled s s') (h' : Changed Attachment.Settled s' s'') :
    Changed Attachment.Settled s s'' := by
  intro x
  cases hs : s.attachments x with
  | none =>
    have h1 := h x
    rw [hs] at h1
    cases hs' : s'.attachments x with
    | none =>
      have h2 := h' x
      rw [hs'] at h2
      cases hs'' : s''.attachments x with
      | none => exact .none
      | some t => rw [hs''] at h2; cases h2
    | some t => rw [hs'] at h1; cases h1
  | some t =>
    obtain ⟨t', ht', h1⟩ := h.new hs
    obtain ⟨t'', ht'', h2⟩ := h'.new ht'
    rw [ht'']
    exact .some (h1.trans h2)

theorem AttachmentOk.frame {s s' : St} {x : Nat} {t t' : Attachment} (h : AttachmentOk s x t) (hc : t.Settled t')
    (hpart : x ∈ (s.objects t.object).participants → t'.closed = false → x ∈ (s'.objects t.object).participants)
    (hret : (s.objects t.object).retired = true → (s'.objects t.object).retired = true)
    (hlife : s.life = some (.reading x) → s'.life = some (.reading x) ∨
      (t.retiredByMe = true ∧ (s'.objects t.object).retired = true)) : AttachmentOk s' x t' := by
  refine ⟨fun e => ?_, fun e => ?_, fun e => ?_, fun e1 e2 => ?_, fun e => ?_⟩
  · rw [hc.object]
    refine hpart (h.joined ?_) e
    cases ht : t.closed with
    | false => rfl
    | true => rw [hc.closed ht] at e; cases e
  · obtain ⟨h1, h2, h3⟩ := h.readers (Nat.lt_of_lt_of_le e hc.readers)
    exact ⟨(hc.stillOpen e).trans h1, hc.hadReader.trans h2, hc.retiredByMe.trans h3⟩
  · rw [hc.hadReader]
    exact h.endpoints (hc.endpoints e)
  · rw [hc.hadReader] at e1
    rw [hc.retiredByMe] at e2
    rcases hlife (h.living e1 e2) with h | h
    · exact h
    · rw [e2] at h; cases h.1
  · rw [hc.retiredByMe] at e
    rw [hc.object]
    rcases h.gone e with h | h
    · exact .inl (hret h)
    · exact (hlife h).symm.imp_left (·.2)

theorem LifeOk.frame {s s' : St} {t t' : Attachment} (h : LifeOk s t) (hc : t.Settled t') (hcr : s'.crashed = s.crashed)
    (hname : s'.name = s.name ∨ s'.name = none)
    (hret : (s.objects t.object).retired = false → (s'.objects t.object).retired = false) : LifeOk s' t' := by
  refine ⟨by rw [hcr, hc.process]; exact h.alive, ?_, fun e => ?_⟩
  · rw [hc.object]
    rcases hname with e | e
    · rw [e]; exact h.name
    · exact .inr e
  · rw [hc.object]
    exact hret (h.unretired (by rwa [hc.retiredByMe] at e))

/-- Objects keep their flags and lose only participants that are dead or closed. -/
structure Shrunk (s s' : St) : Prop where
  retired : ∀ o, (s'.objects o).retired = (s.objects o).retired
  ready : ∀ o, (s'.objects o).ready = (s.objects o).ready
  participants : ∀ o x, x ∈ (s'.objects o).participants → x ∈ (s.objects o).participants
  kept : ∀ o x t, x ∈ (s.objects o).participants → s'.attachments x = some t → s.crashed t.process = false →
    t.closed = false → x ∈ (s'.objects o).participants

theorem shrunk_of_eq {s s' : St} (h : s'.objects = s.objects) : Shrunk s s' :=
  ⟨fun o => by rw [h], fun o => by rw [h], fun o x hx => by rwa [h] at hx, fun o x _ hx _ _ _ => by rwa [h]⟩

/-- The name stays, or goes from an object that no reader could be using. -/
def NameKept (s s' : St) (τ : Thread) : Prop :=
  s'.name = s.name ∨
  (s'.name = none ∧ (∀ o, s.name = some o → Attached s o → (s.objects o).ready = true → (s.objects o).retired = true) ∧
    ∀ σ o, σ ≠ τ → s.crashed σ.1 = false → s.threads σ = .initializing o → s.life = some (.creating σ) → s.name ≠ some o)

/-- Nobody else's reader is touched, and no reader starts to read. -/
structure LifeKept (s s' : St) (τ : Thread) : Prop where
  creating : ∀ σ, σ ≠ τ → s.life = some (.creating σ) → s'.life = some (.creating σ)
  reading : ∀ x, s.life = some (.reading x) → s'.life = some (.reading x) ∨
    ((∀ t, s.attachments x = some t → t.retiredByMe = true ∧ (s.objects t.object).retired = true) ∧
      ∀ σ, σ ≠ τ → s.crashed σ.1 = false → retiring (s.threads σ) ≠ some x)
  still : ∀ x, s'.life = some (.reading x) → s.life = some (.reading x)

theorem lifeKept_of_eq {s s' : St} (τ : Thread) (h : s'.life = s.life) : LifeKept s s' τ :=
  ⟨fun _ _ e => h.trans e, fun _ e => .inl (h.trans e), fun _ e => h.symm.trans e⟩

/-- The reader that `τ` was creating is given up. -/
theorem lifeKept_given_up {s s' : St} {τ : Thread} (h : s.life = some (.creating τ)) (h' : s'.life = none) :
    LifeKept s s' τ := by
  refine ⟨fun σ e hσ => ?_, fun x hx => ?_, fun x hx => ?_⟩
  · rw [h] at hσ
    cases hσ
    exact absurd rfl e
  · rw [h] at hx; cases hx
  · rw [h'] at hx; cases hx

theorem Inv.settle {s s' : St} (hi : Inv s) {τ : Thread} {pc : Pc} (hcr : s'.crashed = s.crashed)
    (hth : s'.threads = Function.update s.threads τ pc) (hno : s'.nextObject = s.nextObject)
    (hna : s'.nextAttachment = s.nextAttachment) (hatt : Changed Attachment.Settled s s') (hobj : Shrunk s s')
    (hname : NameKept s s' τ) (hl : LifeKept s s' τ)
    (hreg : ∀ p x, s'.registry p = some x → ∃ t, s.attachments x = some t ∧ t.process = p)
    (hnamed : ∀ o, attaching pc = some o → Named s o ∧ s'.name = s.name) (hret : retiring pc = none)
    (hpc : s.crashed τ.1 = false → ThreadOk s' τ pc) : Inv s' := by
  have hle : Changed Attachment.Le s s' := hatt.imp fun _ _ => Attachment.Settled.le
  have hname' : s'.name = s.name ∨ s'.name = none := hname.imp_right (·.1)
  refine hi.move_le hcr hth hno hna hle hobj.participants (fun o h => (hobj.ready o).trans h) hname'
    (fun o ho hr hnr => ?_) hreg (fun σ hσ hσc => ?_) hpc (fun x t' ht' hcr' => ?_) (fun x hx => ?_)
    (fun x hx => by rw [hret] at hx; cases hx)
  · rw [hobj.ready] at hr
    rw [hobj.retired] at hnr
    rcases ho with h | h
    · have hn := hi.named o h hr hnr
      rcases hname with e | ⟨-, hat, -⟩
      · exact e.trans hn
      · rw [hat o hn h hr] at hnr; cases hnr
    · obtain ⟨hn, e⟩ := hnamed o h
      exact e.trans (hn hr hnr)
  · refine ⟨fun x t ht => hle.new ht, Nat.le_of_eq hno.symm, fun o _ h => (hobj.ready o).trans h,
      fun o _ h => (hobj.retired o).trans h,
      fun h => ⟨hl.creating σ hσ h, fun o _ h => (hobj.retired o).trans h⟩, fun o hpc hcl hn hb => ⟨?_, ?_⟩,
      fun x hr h => (hl.reading x h).resolve_right fun hh => hh.2 σ hσ hσc hr⟩
    · rcases hname with e | ⟨-, -, hinit⟩
      · exact e.trans hn
      · exact absurd hn (hinit σ o hσ hσc hpc hcl)
    · have h1 := hobj.retired o
      have h2 := hobj.ready o
      have h3 : (s'.objects o).participants = [] := by
        refine List.eq_nil_iff_forall_not_mem.mpr fun x hx => ?_
        have := hobj.participants o x hx
        rw [hb] at this
        cases this
      rw [hb] at h1 h2
      cases ho : s'.objects o
      rw [ho] at h1 h2 h3
      cases h1; cases h2; cases h3
      rfl
  · obtain ⟨t, ht, hc⟩ := hatt.old ht'
    have hcr'' : s.crashed t.process = false := by rwa [hc.process] at hcr'
    refine (hi.attachments x t ht hcr'').frame hc (fun h e => hobj.kept _ x t' h ht' hcr' e)
      (fun h => (hobj.retired _).trans h) fun h => ?_
    refine (hl.reading x h).imp_right fun hh => ?_
    obtain ⟨h1, h2⟩ := hh.1 t ht
    exact ⟨h1, (hobj.retired _).trans h2⟩
  · obtain ⟨t, ht, hok⟩ := hi.life x (hl.still x hx)
    obtain ⟨t', ht', hc⟩ := hatt.new ht
    exact ⟨t', ht', hok.frame hc hcr hname' fun h => (hobj.retired _).trans h⟩

/-- A move that leaves name, objects and the reader alone. -/
theorem Inv.quiet {s s' : St} (hi : Inv s) {τ : Thread} {pc : Pc} (hcr : s'.crashed = s.crashed)
    (hth : s'.threads = Function.update s.threads τ pc) (hno : s'.nextObject = s.nextObject)
    (hna : s'.nextAttachment = s.nextAttachment) (hatt : Changed Attachment.Settled s s')
    (hobj : s'.objects = s.objects) (hname : s'.name = s.name) (hl : s'.life = s.life)
    (hreg : ∀ p x, s'.registry p = some x → ∃ t, s.attachments x = some t ∧ t.process = p)
    (hnamed : ∀ o, attaching pc = some o → Named s o) (hret : retiring pc = none)
    (hpc : s.crashed τ.1 = false → ThreadOk s' τ pc) : Inv s' :=
  hi.settle hcr hth hno hna hatt (shrunk_of_eq hobj) (.inl hname) (lifeKept_of_eq τ hl) hreg
    (fun o h => ⟨hnamed o h, hname⟩) hret hpc

/-- A thread goes on without touching anything. -/
theorem Inv.setThread {s : St} (hi : Inv s) {τ : Thread} {pc : Pc} (hnamed : ∀ o, attaching pc = some o → Named s o)
    (hret : retiring pc = none) (hpc : s.crashed τ.1 = false → ThreadOk s τ pc) : Inv (setThread s τ pc) := by
  refine hi.quiet rfl rfl rfl rfl (changed_of_eq .refl rfl) rfl rfl rfl hi.registry hnamed hret fun hc => ?_
  have := hpc hc
  cases pc <;> exact this

theorem afterClose_ok {s : St} {τ : Thread} {x : Nat} {held : Bool} (h : Mine s τ x fun _ => True) :
    ThreadOk s τ (afterClose x held) := by
  cases held
  · trivial
  · exact h

theorem afterClose_attaching (x : Nat) (held : Bool) : attaching (afterClose x held) = none := by cases held <;> rfl

theorem afterClose_retiring (x : Nat) (held : Bool) : retiring (afterClose x held) = none := by cases held <;> rfl

theorem Mine.weaken {s : St} {τ : Thread} {x : Nat} {P Q : Attachment → Prop} (h : Mine s τ x P)
    (hPQ : ∀ t, P t → Q t) : Mine s τ x Q := by
  obtain ⟨t, ht, hp, hP⟩ := h
  exact ⟨t, ht, hp, hPQ t hP⟩

theorem Mine.at {s : St} {τ : Thread} {x : Nat} {P : Attachment → Prop} (h : Mine s τ x P) {t : Attachment}
    (ht : s.attachments x = some t) : t.process = τ.1 ∧ P t := by
  obtain ⟨t', ht', hp, hP⟩ := h
  cases ht.symm.trans ht'
  exact ⟨hp, hP⟩

theorem mine_setAttachment {s s' : St} {τ : Thread} {x : Nat} {t : Attachment} {f : Attachment → Attachment}
    {P : Attachment → Prop} (hatt : s'.attachments = (setAttachment s x f).attachments) (ht : s.attachments x = some t)
    (hp : (f t).process = τ.1) (hP : P (f t)) : Mine s' τ x P :=
  ⟨f t, by rw [hatt]; simp [ht], hp, hP⟩

theorem threads_idle {s : St} {τ : Thread} (h : s.threads τ = .idle) : s.threads = Function.update s.threads τ .idle := by
  rw [← h, Function.update_eq_self]

/-- A registry that lost the entry of one process. -/
theorem Inv.registry_erased {s : St} (hi : Inv s) (q : Nat) (p x : Nat)
    (h : Function.update s.registry q none p = some x) : ∃ t, s.attachments x = some t ∧ t.process = p := by
  by_cases e : p = q
  · subst e; simp at h
  · rw [Function.update_of_ne e] at h
    exact hi.registry p x h

theorem lookup_some {s : St} {p x : Nat} (h : lookup s p = some x) :
    s.registry p = some x ∧ ∃ t, s.attachments x = some t ∧ (s.objects t.object).retired = false := by
  simp only [lookup, Option.bind_eq_some_iff] at h
  obtain ⟨y, hy, t, ht, h⟩ := h
  split at h
  · rename_i hg
    cases h
    exact ⟨hy, t, ht, hg.2⟩
  · cases h

theorem addRef_changed (s : St) (x : Nat) : Changed Attachment.Settled s (addRef s x) :=
  changed_setAttachment .refl rfl fun t _ => .recount t (t.refs + 1) t.writerEndpoints

end PuppetMaster.Shm.Lifetime
