/-
  PuppetMaster.Shm.LifetimeProofs — a live reader's segment keeps its name (see
  `PuppetMaster.Shm.Lifetime`): every move keeps the invariant, as long as there is one
  reader at a time and no writer-only Close unlinks a name that somebody uses.
-/

import PuppetMaster.Shm.LifetimeInvariant

namespace PuppetMaster.Shm.Lifetime

open PuppetMaster.Lib
open PuppetMaster.Shm.Participants (kMaxParticipants Thread)

/-! ## Creating endpoints -/

/-- A reader begins to be created where there was none. -/
theorem lifeKept_begun {s s' : St} {τ : Thread} (h : s.life = none) (h' : s'.life = some (.creating τ)) :
    LifeKept s s' τ := by
  refine ⟨fun σ _ hσ => ?_, fun x hx => ?_, fun x hx => ?_⟩
  · rw [h] at hσ; cases hσ
  · rw [h] at hx; cases hx
  · rw [h'] at hx; cases hx

theorem createEndpoint_inv {s s' : St} (hi : Inv s) {τ : Thread} {kind : Endpoint}
    (hlife : kind = .reader → s.life = none) (h : createEndpoint s τ kind = some s') : Inv s' := by
  unfold createEndpoint at h
  split at h
  · rename_i hg
    split at h
    · rename_i x hx
      cases h
      obtain ⟨hr, t, ht, hnr⟩ := lookup_some hx
      obtain ⟨t', ht', hp⟩ := hi.registry _ _ hr
      rw [ht] at ht'
      cases ht'
      refine hi.settle rfl rfl rfl rfl (addRef_changed s x) (shrunk_of_eq rfl) (.inl rfl)
        (lifeKept_begun (hlife rfl) rfl) hi.registry (fun o ho => by cases ho) rfl fun _ => ⟨rfl, ?_⟩
      exact mine_setAttachment rfl ht hp hnr
    · rename_i x hx
      cases h
      refine hi.quiet rfl (threads_idle hg.1) rfl rfl ?_ rfl rfl rfl hi.registry (fun o ho => by cases ho) rfl
        fun _ => trivial
      exact (addRef_changed s x).trans
        (changed_setAttachment .refl rfl fun t _ => .recount t t.refs (t.writerEndpoints + 1))
    · cases h
      exact hi.settle rfl rfl rfl rfl (changed_of_eq .refl rfl) (shrunk_of_eq rfl) (.inl rfl)
        (lifeKept_begun (hlife rfl) rfl) (hi.registry_erased τ.1) (fun o ho => by cases ho) rfl fun _ => rfl
    · cases h
      exact hi.quiet rfl rfl rfl rfl (changed_of_eq .refl rfl) rfl rfl rfl (hi.registry_erased τ.1)
        (fun o ho => by cases ho) rfl fun _ hk => by cases hk
  · cases h

/-- Creating an endpoint fails; for a reader this ends its life. -/
theorem fail_inv {s r : St} (hi : Inv s) {τ : Thread} {kind : Endpoint} (hcr : r.crashed = s.crashed)
    (hth : r.threads = s.threads) (hno : r.nextObject = s.nextObject) (hna : r.nextAttachment = s.nextAttachment)
    (hatt : Changed Attachment.Settled s r) (hobj : Shrunk s r) (hname : r.name = s.name) (hl : r.life = s.life)
    (hreg : r.registry = s.registry) (hlife : kind = .reader → s.life = some (.creating τ)) : Inv (fail r τ kind) := by
  have hth' : (fail r τ kind).threads = Function.update s.threads τ .idle := by
    simp [fail, Lifetime.setThread, hth]
  refine hi.settle hcr hth' hno hna hatt ⟨hobj.1, hobj.2, hobj.3, hobj.4⟩ (.inl hname) ?_
    (fun p x h => hi.registry p x (by rw [← hreg]; exact h)) (fun o ho => by cases ho) rfl fun _ => trivial
  cases kind with
  | reader => exact lifeKept_given_up (hlife rfl) rfl
  | writer => exact lifeKept_of_eq τ hl

/-- A failure that changed nothing else. -/
theorem fail_plain {s : St} (hi : Inv s) {τ : Thread} {kind : Endpoint}
    (hlife : kind = .reader → s.life = some (.creating τ)) : Inv (fail s τ kind) :=
  fail_inv hi rfl rfl rfl rfl (changed_of_eq .refl rfl) (shrunk_of_eq rfl) rfl rfl rfl hlife

theorem reclaim_shrunk (s : St) (o : Nat) : Shrunk s (reclaim s o) := by
  refine ⟨fun q => ?_, fun q => ?_, fun q x hx => ?_, fun q x t hx ht hc _ => ?_⟩
  · simp only [reclaim, setObject_objects]; split
    · rename_i e; rw [e]
    · rfl
  · simp only [reclaim, setObject_objects]; split
    · rename_i e; rw [e]
    · rfl
  · simp only [reclaim, setObject_objects] at hx
    split at hx
    · rename_i e; rw [e]; exact (List.mem_filter.mp hx).1
    · exact hx
  · have ht' : s.attachments x = some t := ht
    simp only [reclaim, setObject_objects]
    split
    · rename_i e
      rw [e] at hx
      exact List.mem_filter.mpr ⟨hx, by simp [isLive, ht', hc]⟩
    · exact hx

/-- Giving up the participant entry of a closed attachment. -/
theorem erase_shrunk {s s' : St} {x o : Nat} (hobj : s'.objects = (setObject s o fun object =>
      { object with participants := object.participants.erase x }).objects)
    (hclosed : ∀ t, s'.attachments x = some t → t.closed = true) : Shrunk s s' := by
  refine ⟨fun q => ?_, fun q => ?_, fun q y hy => ?_, fun q y t hy ht _ hc => ?_⟩
  · rw [hobj, setObject_objects]; split
    · rename_i e; rw [e]
    · rfl
  · rw [hobj, setObject_objects]; split
    · rename_i e; rw [e]
    · rfl
  · rw [hobj, setObject_objects] at hy
    split at hy
    · rename_i e; rw [e]; exact List.mem_of_mem_erase hy
    · exact hy
  · have hne : y ≠ x := fun e => by
      rw [e] at ht
      rw [hclosed t ht] at hc
      cases hc
    rw [hobj, setObject_objects]
    split
    · rename_i e; rw [e] at hy; exact (List.mem_erase_of_ne hne).mpr hy
    · exact hy

/-- The exclusive create: nobody is attached to an object that could have the name. -/
theorem create_inv {s s' : St} (hi : Inv s) {τ : Thread} (hτ : s.crashed τ.1 = false) (hpc : s.threads τ = .excl)
    (hname : s.name = none)
    (h : s' = { setThread s τ (.initializing s.nextObject) with
      objects := Function.update s.objects s.nextObject blank
      name := some s.nextObject
      nextObject := s.nextObject + 1 }) : Inv s' := by
  have hl : s.life = some (.creating τ) := by
    have := hi.threads τ hτ
    rwa [hpc] at this
  have hatt : s'.attachments = s.attachments := by rw [h]; rfl
  have hlife : s'.life = s.life := by rw [h]; rfl
  have hnext : s'.nextObject = s.nextObject + 1 := by rw [h]
  have hname' : s'.name = some s.nextObject := by rw [h]
  have hnew : s'.objects s.nextObject = blank := by rw [h]; simp
  have hold : ∀ o, o ≠ s.nextObject → s'.objects o = s.objects o := fun o ho => by rw [h]; simp [ho]
  have hth : s'.threads = Function.update s.threads τ (.initializing s.nextObject) := by rw [h]; rfl
  refine hi.move (by rw [h]; rfl) hth (by rw [hatt, h]; exact hi.fresh) (fun x t ht => ?_)
    (fun o ho => ?_) (fun o x hx => ?_) (fun o ho hr hnr => ?_) (by rw [hatt, h]; exact hi.registry) (fun σ hσ hσc => ?_)
    (fun _ => ?_) (fun x t ht hc => ?_) (fun x hx => ?_) (fun x hx => by cases hx)
  · rw [hatt] at ht
    have := hi.older x t ht
    omega
  · rw [hname'] at ho
    cases ho
    omega
  · by_cases e : o = s.nextObject
    · subst e; rw [hnew] at hx; cases hx
    · rw [hold o e] at hx ⊢
      rw [hatt]
      exact hi.known o x hx
  · -- an older object that is attached to and not retired would have had the name
    by_cases e : o = s.nextObject
    · rw [e]; exact hname'
    · rw [hold o e] at hr hnr
      have hl' : ∀ x, isLive s' x = isLive s x := isLive_of_le (by rw [h]; rfl) (changed_of_eq .refl hatt)
      have hwas : ∀ q x, x ∈ (s'.objects q).participants → isLive s' x = true →
          x ∈ (s.objects q).participants ∧ isLive s x = true := by
        intro q x hx hlv
        by_cases e : q = s.nextObject
        · subst e; rw [hnew] at hx; cases hx
        · rw [hold q e] at hx
          rw [hl'] at hlv
          exact ⟨hx, hlv⟩
      rcases attached_of (by rw [h]; rfl) hth hwas ho with h | h
      · have := hi.named o h hr hnr
        rw [hname] at this
        cases this
      · cases h.2
        exact absurd rfl e
  · refine ⟨fun x t ht => ⟨t, by rw [hatt]; exact ht, .refl t⟩, by omega, fun o ho h => ?_, fun o ho h => ?_, fun h => ?_,
      fun o _ h => ?_, fun x _ h => ?_⟩
    · rw [hold o (by omega)]; exact h
    · rw [hold o (by omega)]; exact h
    · rw [hl] at h; cases h; exact absurd rfl hσ
    · rw [hl] at h; cases h; exact absurd rfl hσ
    · rw [hl] at h; cases h
  · exact ⟨hlife.trans hl, by omega, hname', hnew⟩
  · rw [hatt] at ht
    have ho := hi.older x t ht
    refine (hi.attachments x t ht hc).frame (.refl t) (fun h _ => ?_) (fun h => ?_) fun h => .inl (hlife.trans h)
    · rw [hold _ (by omega)]; exact h
    · rw [hold _ (by omega)]; exact h
  · rw [hlife, hl] at hx
    cases hx

/-- The header is published. -/
theorem ready_inv {s : St} (hi : Inv s) {τ : Thread} {o : Nat} (hτ : s.crashed τ.1 = false)
    (hpc : s.threads τ = .initializing o) {s' : St}
    (h : s' = setThread (setObject s o fun object => { object with ready := true }) τ (.claiming .reader o)) : Inv s' := by
  obtain ⟨hl, ho, hname, hblank⟩ : s.life = some (.creating τ) ∧ o < s.nextObject ∧ s.name = some o ∧ s.objects o = blank := by
    have := hi.threads τ hτ
    rwa [hpc] at this
  have hatt : s'.attachments = s.attachments := by rw [h]; rfl
  have hnew : s'.objects o = ⟨false, true, []⟩ := by rw [h]; simp [setThread, hblank, blank]
  have hold : ∀ q, q ≠ o → s'.objects q = s.objects q := fun q hq => by rw [h]; simp [setThread, hq]
  have hret : ∀ q, (s'.objects q).retired = (s.objects q).retired := fun q => by
    by_cases e : q = o
    · subst e; rw [hnew, hblank]; rfl
    · rw [hold q e]
  have hpart : ∀ q, (s'.objects q).participants = (s.objects q).participants := fun q => by
    by_cases e : q = o
    · subst e; rw [hnew, hblank]; rfl
    · rw [hold q e]
  have hlife : s'.life = s.life := by rw [h]; rfl
  have hname' : s'.name = s.name := by rw [h]; rfl
  have hth : s'.threads = Function.update s.threads τ (.claiming .reader o) := by rw [h]; rfl
  have hnext : s'.nextObject = s.nextObject := by rw [h]; rfl
  have hrdy : ∀ q, (s.objects q).ready = true → (s'.objects q).ready = true := fun q hq => by
    by_cases e : q = o
    · subst e; rw [hnew]
    · rw [hold q e]; exact hq
  refine hi.move_le (by rw [h]; rfl) hth hnext (by rw [h]; rfl) (changed_of_eq .refl hatt)
    (fun q x hx => by rwa [hpart] at hx) hrdy (.inl hname') (fun q hq hr hnr => ?_) (by rw [h]; exact hi.registry)
    (fun σ hσ hσc => ?_) (fun _ => ?_) (fun x t ht hc => ?_) (fun x hx => ?_) (fun x hx => by cases hx)
  · rw [hname']
    by_cases e : q = o
    · rw [e]; exact hname
    · rw [hold q e] at hr hnr
      rcases hq with h | h
      · exact hi.named q h hr hnr
      · cases h
        exact absurd rfl e
  · refine ⟨fun x t ht => ⟨t, by rw [hatt]; exact ht, .refl t⟩, by omega, fun q _ => hrdy q, fun q _ h => (hret q).trans h,
      fun h => ⟨hlife.trans h, fun q _ h => (hret q).trans h⟩, fun q _ h => ?_, fun x _ h => hlife.trans h⟩
    rw [hl] at h; cases h; exact absurd rfl hσ
  · exact ⟨by omega, by rw [hnew], fun _ => ⟨hlife.trans hl, by rw [hnew]⟩⟩
  · rw [hatt] at ht
    exact (hi.attachments x t ht hc).frame (.refl t) (fun h _ => by rw [hpart]; exact h) (fun h => (hret _).trans h)
      fun h => .inl (hlife.trans h)
  · rw [hlife, hl] at hx
    cases hx

/-- A participant joins the object its thread looked up. -/
theorem claim_inv {s s' : St} (hi : Inv s) {τ : Thread} {kind : Endpoint} {o : Nat} (hτ : s.crashed τ.1 = false)
    (hpc : s.threads τ = .claiming kind o)
    (h : s' = { setThread (setObject (reclaim s o) o fun object =>
        { object with participants := s.nextAttachment :: object.participants }) τ (.notifier kind s.nextAttachment) with
      attachments := Function.update s.attachments s.nextAttachment
        (some ⟨τ.1, o, 0, 0, 0, 0, false, false, false⟩)
      nextAttachment := s.nextAttachment + 1 }) : Inv s' := by
  obtain ⟨ho, hready, hk⟩ : o < s.nextObject ∧ (s.objects o).ready = true ∧
      (kind = .reader → s.life = some (.creating τ) ∧ (s.objects o).retired = false) := by
    have := hi.threads τ hτ
    rwa [hpc] at this
  have hself : Attached s o := .inr ⟨τ, hτ, by rw [hpc]; rfl⟩
  have hnew : s'.attachments s.nextAttachment = some ⟨τ.1, o, 0, 0, 0, 0, false, false, false⟩ := by rw [h]; simp
  have hold : ∀ x, x ≠ s.nextAttachment → s'.attachments x = s.attachments x := fun x hx => by rw [h]; simp [hx]
  have hshr := reclaim_shrunk s o
  have hret : ∀ q, (s'.objects q).retired = (s.objects q).retired := fun q => by
    rw [← hshr.retired q, h]
    by_cases e : q = o
    · simp [setThread, e]
    · simp [setThread, e]
  have hrdy : ∀ q, (s'.objects q).ready = (s.objects q).ready := fun q => by
    rw [← hshr.ready q, h]
    by_cases e : q = o
    · simp [setThread, e]
    · simp [setThread, e]
  have hpart : ∀ q x, x ∈ (s'.objects q).participants ↔
      (q = o ∧ x = s.nextAttachment) ∨ x ∈ ((reclaim s o).objects q).participants := fun q x => by
    rw [h]
    by_cases e : q = o
    · simp [setThread, e]
    · simp [setThread, e]
  have hlife : s'.life = s.life := by rw [h]; rfl
  have hname : s'.name = s.name := by rw [h]; rfl
  have hnext : s'.nextObject = s.nextObject := by rw [h]; rfl
  have hth : s'.threads = Function.update s.threads τ (.notifier kind s.nextAttachment) := by rw [h]; rfl
  have hfresh := hi.fresh s.nextAttachment (Nat.le_refl _)
  refine hi.move (by rw [h]; rfl) hth (fun x hx => ?_) (fun x t ht => ?_) (by rw [hname, hnext]; exact hi.resolved)
    (fun q x hx => ?_) (fun q hq hr hnr => ?_) (fun p x hp => ?_) (fun σ hσ hσc => ?_) (fun _ => ?_) (fun x t ht hc => ?_)
    (fun x hx => ?_) (fun x hx => by cases hx)
  · have hx' : s.nextAttachment + 1 ≤ x := by rw [h] at hx; exact hx
    rw [hold x (by omega)]
    exact hi.fresh x (by omega)
  · rw [hnext]
    by_cases e : x = s.nextAttachment
    · subst e; rw [hnew] at ht; cases ht; exact ho
    · rw [hold x e] at ht; exact hi.older x t ht
  · rw [hrdy]
    rcases (hpart q x).mp hx with ⟨rfl, rfl⟩ | hx
    · exact ⟨hready, _, hnew, rfl⟩
    · obtain ⟨h1, t, ht, h2⟩ := hi.known q x (hshr.participants q x hx)
      have e : x ≠ s.nextAttachment := fun e => by rw [e, hfresh] at ht; cases ht
      exact ⟨h1, t, by rw [hold x e]; exact ht, h2⟩
  · -- the newcomer was already counted as attaching
    rw [hrdy] at hr
    rw [hret] at hnr
    rw [hname]
    have hwas : Attached s q := by
      rcases hq with ⟨x, hx, hlv⟩ | ⟨σ, hσ, ha⟩
      · rcases (hpart q x).mp hx with ⟨rfl, -⟩ | hx
        · exact hself
        · refine .inl ⟨x, hshr.participants q x hx, ?_⟩
          obtain ⟨-, t, ht, -⟩ := hi.known q x (hshr.participants q x hx)
          have e : x ≠ s.nextAttachment := fun e => by rw [e, hfresh] at ht; cases ht
          simp only [isLive, hold x e] at hlv ⊢
          rw [h] at hlv
          exact hlv
      · rw [hth] at ha
        by_cases e : σ = τ
        · subst e; rw [Function.update_self] at ha; cases ha
        · rw [Function.update_of_ne e] at ha
          exact .inr ⟨σ, by rw [h] at hσ; exact hσ, ha⟩
    exact hi.named q hwas hr hnr
  · obtain ⟨t, ht, htp⟩ := hi.registry p x (by rw [h] at hp; exact hp)
    have e : x ≠ s.nextAttachment := fun e => by rw [e, hfresh] at ht; cases ht
    exact ⟨t, by rw [hold x e]; exact ht, htp⟩
  · refine ⟨fun x t ht => ?_, by omega, fun q _ h => (hrdy q).trans h, fun q _ h => (hret q).trans h,
      fun h => ⟨hlife.trans h, fun q _ h => (hret q).trans h⟩, fun q _ _ hn hb => ⟨hname.trans hn, ?_⟩,
      fun x _ h => hlife.trans h⟩
    · have e : x ≠ s.nextAttachment := fun e => by rw [e, hfresh] at ht; cases ht
      exact ⟨t, by rw [hold x e]; exact ht, .refl t⟩
    · have e : q ≠ o := fun e => by rw [e] at hb; rw [hb] at hready; cases hready
      rw [h]
      simpa [setThread, reclaim, e] using hb
  · refine ⟨_, hnew, rfl, fun hkr => ?_⟩
    rw [hret, hlife]
    exact hk hkr
  · by_cases e : x = s.nextAttachment
    · subst e
      rw [hnew] at ht
      cases ht
      refine ⟨fun _ => (hpart o _).mpr (.inl ⟨rfl, rfl⟩), fun h => ?_, fun h => ?_, fun h => ?_, fun h => ?_⟩
      · exact absurd h (Nat.lt_irrefl 0)
      · exact absurd h (Nat.lt_irrefl 0)
      · cases h
      · cases h
    · rw [hold x e] at ht
      refine (hi.attachments x t ht hc).frame (.refl t) (fun hx hcl => ?_) (fun h => (hret _).trans h)
        fun h => .inl (hlife.trans h)
      exact (hpart _ x).mpr (.inr (hshr.kept _ x t hx ht hc hcl))
  · rw [hlife] at hx
    obtain ⟨t, ht, hok⟩ := hi.life x hx
    have e : x ≠ s.nextAttachment := fun e => by rw [e, hfresh] at ht; cases ht
    exact ⟨t, by rw [hold x e]; exact ht, hok.frame (.refl t) (by rw [h]; rfl) (.inl hname) fun h => (hret _).trans h⟩

/-- AddReader succeeds: the attachment had no reader before, and its object has the name. -/
theorem add_inv {s s' : St} (hi : Inv s) {τ : Thread} {x : Nat} {t : Attachment} (hτ : s.crashed τ.1 = false)
    (hpc : s.threads τ = .adding x) (ht : s.attachments x = some t) (hopen : t.closed = false)
    (h : s' = { setThread (setAttachment s x fun t => { t with
        readers := t.readers + 1
        hadReader := true
        readerEndpoints := t.readerEndpoints + 1 }) τ .idle with
      life := some (.reading x) }) : Inv s' := by
  obtain ⟨hl, hnr, hp⟩ : s.life = some (.creating τ) ∧ (s.objects t.object).retired = false ∧ t.process = τ.1 := by
    have := hi.threads τ hτ
    rw [hpc] at this
    exact ⟨this.1, (this.2.at ht).2, (this.2.at ht).1⟩
  have hok := hi.attachments x t ht (by rw [hp]; exact hτ)
  have hrbm : t.retiredByMe = false := by
    cases e : t.retiredByMe with
    | false => rfl
    | true =>
      rcases hok.gone e with h | h
      · rw [hnr] at h; cases h
      · rw [hl] at h; cases h
  have hhad : t.hadReader = false := by
    cases e : t.hadReader with
    | false => rfl
    | true =>
      have := hok.living e hrbm
      rw [hl] at this
      cases this
  have hname : s.name = some t.object := by
    have hin := hok.joined hopen
    exact hi.named t.object (.inl ⟨x, hin, by simp [isLive, ht, hp, hτ]⟩) (hi.known _ x hin).1 hnr
  have hatt : ∀ y, y ≠ x → s'.attachments y = s.attachments y := fun y hy => by rw [h]; simp [setThread, hy]
  have hnew : s'.attachments x = some { t with
      readers := t.readers + 1, hadReader := true, readerEndpoints := t.readerEndpoints + 1 } := by
    rw [h]; simp [setThread, ht]
  have hle : Changed Attachment.Le s s' := by
    refine changed_setAttachment .refl (s := s) (x := x) (by rw [h]; rfl) fun t' ht' => ?_
    rw [ht] at ht'
    cases ht'
    exact ⟨rfl, rfl, fun _ => rfl, id, id, fun e => by rw [hhad] at e; cases e⟩
  have hobj : s'.objects = s.objects := by rw [h]; rfl
  have hth : s'.threads = Function.update s.threads τ .idle := by rw [h]; rfl
  have hname' : s'.name = s.name := by rw [h]; rfl
  have hlife' : s'.life = some (.reading x) := by rw [h]
  have hnext : s'.nextObject = s.nextObject := by rw [h]; rfl
  refine hi.move_le (by rw [h]; rfl) hth hnext (by rw [h]; rfl) hle (by rw [hobj]; exact fun _ _ => id)
    (by rw [hobj]; exact fun _ => id) (.inl hname') (fun q hq => ?_) (by rw [h]; exact hi.registry) (fun σ hσ hσc => ?_)
    (fun _ => trivial) (fun y t' ht' hc => ?_) (fun y hy => ?_) (fun y hy => by cases hy)
  · rcases hq with h | h
    · simpa only [Named, hobj, hname'] using hi.named q h
    · cases h
  · refine ⟨fun y t0 h0 => hle.new h0, by omega, fun q _ h => by rwa [hobj], fun q _ h => by rwa [hobj], fun h => ?_,
      fun q _ h => ?_, fun y _ h => ?_⟩
    · rw [hl] at h; cases h; exact absurd rfl hσ
    · rw [hl] at h; cases h; exact absurd rfl hσ
    · rw [hl] at h; cases h
  · by_cases e : y = x
    · subst e
      rw [hnew] at ht'
      cases ht'
      exact ⟨fun _ => by rw [hobj]; exact hok.joined hopen, fun _ => ⟨hopen, rfl, hrbm⟩, fun _ => rfl, fun _ _ => hlife',
        fun e => by simp only [hrbm] at e; cases e⟩
    · rw [hatt y e] at ht'
      refine (hi.attachments y t' ht' hc).frame (.refl t') (fun h _ => by rwa [hobj]) (fun h => by rwa [hobj]) fun h => ?_
      rw [hl] at h
      cases h
  · rw [hlife'] at hy
    cases hy
    refine ⟨_, hnew, by rw [h]; show s.crashed t.process = false; rw [hp]; exact hτ, .inl (hname'.trans hname),
      fun _ => by rw [hobj]; exact hnr⟩

/-! ## Retiring -/

theorem Inv.no_retirer {s : St} (hi : Inv s) {x : Nat} {t : Attachment} (ht : s.attachments x = some t)
    (h : t.retiredByMe = false) (σ : Thread) (hσ : s.crashed σ.1 = false) : retiring (s.threads σ) ≠ some x := by
  intro hr
  have hok := hi.threads σ hσ
  cases hpc : s.threads σ <;> rw [hpc] at hr hok <;> cases hr
  · rw [(hok.2.at ht).2] at h
    cases h
  · rw [(hok.2.at ht).2.1] at h
    cases h

/-- The first to retire an attachment retires the one reader's. -/
theorem exchange_inv {s s' : St} (hi : Inv s) {τ : Thread} {x : Nat} {held : Bool} {t : Attachment}
    (hτ : s.crashed τ.1 = false) (hpc : s.threads τ = .exchange x held) (ht : s.attachments x = some t)
    (hfirst : t.retiredByMe = false)
    (h : s' = setThread (setAttachment s x fun t => { t with retiredByMe := true }) τ (.retireFlag x held)) : Inv s' := by
  obtain ⟨hp, hhad, hno⟩ : t.process = τ.1 ∧ t.hadReader = true ∧ t.readers = 0 := by
    have := hi.threads τ hτ
    rw [hpc] at this
    exact Mine.at this ht
  have hok := hi.attachments x t ht (by rw [hp]; exact hτ)
  have hl := hok.living hhad hfirst
  have hnew : s'.attachments x = some { t with retiredByMe := true } := by rw [h]; simp [setThread, ht]
  have hatt : ∀ y, y ≠ x → s'.attachments y = s.attachments y := fun y hy => by rw [h]; simp [setThread, hy]
  have hle : Changed Attachment.Le s s' := by
    subst h
    exact changed_setAttachment .refl rfl fun _ _ => ⟨rfl, rfl, id, id, fun _ => rfl, fun _ => id⟩
  have hobj : s'.objects = s.objects := by rw [h]; rfl
  have hth : s'.threads = Function.update s.threads τ (.retireFlag x held) := by rw [h]; rfl
  have hname : s'.name = s.name := by rw [h]; rfl
  have hlife : s'.life = s.life := by rw [h]; rfl
  have hnext : s'.nextObject = s.nextObject := by rw [h]; rfl
  refine hi.move_le (by rw [h]; rfl) hth hnext (by rw [h]; rfl) hle (by rw [hobj]; exact fun _ _ => id)
    (by rw [hobj]; exact fun _ => id) (.inl hname) (fun q hq => ?_) (by rw [h]; exact hi.registry) (fun σ hσ hσc => ?_)
    (fun _ => ?_) (fun y t' ht' hc => ?_) (fun y hy => ?_) (fun y hy => ?_)
  · rcases hq with h | h
    · simpa only [Named, hobj, hname] using hi.named q h
    · cases h
  · exact ⟨fun y t0 h0 => hle.new h0, by omega, fun q _ h => by rwa [hobj], fun q _ h => by rwa [hobj],
      fun h => ⟨hlife.trans h, fun q _ h => by rwa [hobj]⟩, fun q _ _ h1 h2 => ⟨hname.trans h1, by rwa [hobj]⟩,
      fun y _ h => hlife.trans h⟩
  · exact ⟨hlife.trans hl, _, hnew, hp, rfl⟩
  · by_cases e : y = x
    · subst e
      rw [hnew] at ht'
      cases ht'
      refine ⟨fun e => by rw [hobj]; exact hok.joined e, fun e => ?_, hok.endpoints, fun _ e => (by cases e),
        fun _ => .inr (hlife.trans hl)⟩
      simp only [hno] at e
      omega
    · rw [hatt y e] at ht'
      exact (hi.attachments y t' ht' hc).frame (.refl t') (fun h _ => by rwa [hobj]) (fun h => by rwa [hobj])
        fun h => .inl (hlife.trans h)
  · rw [hlife] at hy
    rw [hl] at hy
    cases hy
    obtain ⟨t0, h0, hok0⟩ := hi.life x hl
    rw [ht] at h0
    cases h0
    exact ⟨_, hnew, by rw [h]; exact hok0.alive, by rw [hname]; exact hok0.name, fun e => by cases e⟩
  · cases hy
    exact .inr fun σ hσ => hi.no_retirer ht hfirst σ hσ

/-- The flag goes up on the one reader's object. -/
theorem retireFlag_inv {s s' : St} (hi : Inv s) {τ : Thread} {x : Nat} {held : Bool} {t : Attachment}
    (hτ : s.crashed τ.1 = false) (hpc : s.threads τ = .retireFlag x held) (ht : s.attachments x = some t)
    (h : s' = setThread (setObject s t.object fun object => { object with retired := true }) τ (.unlink x held)) :
    Inv s' := by
  obtain ⟨hl, hp, hrbm⟩ : s.life = some (.reading x) ∧ t.process = τ.1 ∧ t.retiredByMe = true := by
    have := hi.threads τ hτ
    rw [hpc] at this
    exact ⟨this.1, this.2.at ht⟩
  have hatt : s'.attachments = s.attachments := by rw [h]; rfl
  have hnew : (s'.objects t.object).retired = true := by rw [h]; simp [setThread]
  have hret : ∀ q, (s.objects q).retired = true → (s'.objects q).retired = true := fun q hq => by
    rw [h]
    by_cases e : q = t.object
    · simp [setThread, e]
    · simpa [setThread, e] using hq
  have hrdy : ∀ q, (s'.objects q).ready = (s.objects q).ready := fun q => by
    rw [h]
    by_cases e : q = t.object
    · simp [setThread, e]
    · simp [setThread, e]
  have hpart : ∀ q, (s'.objects q).participants = (s.objects q).participants := fun q => by
    rw [h]
    by_cases e : q = t.object
    · simp [setThread, e]
    · simp [setThread, e]
  have hth : s'.threads = Function.update s.threads τ (.unlink x held) := by rw [h]; rfl
  have hname : s'.name = s.name := by rw [h]; rfl
  have hlife : s'.life = s.life := by rw [h]; rfl
  have hnext : s'.nextObject = s.nextObject := by rw [h]; rfl
  refine hi.move_le (by rw [h]; rfl) hth hnext (by rw [h]; rfl) (changed_of_eq .refl hatt)
    (fun q y hy => by rwa [hpart] at hy) (fun q hq => (hrdy q).trans hq) (.inl hname) (fun q hq hr hnr => ?_)
    (by rw [h]; exact hi.registry) (fun σ hσ hσc => ?_) (fun _ => ?_) (fun y t' ht' hc => ?_) (fun y hy => ?_)
    (fun y hy => ?_)
  · have hnr' : (s.objects q).retired = false := by
      cases e : (s.objects q).retired with
      | false => rfl
      | true => rw [hret q e] at hnr; cases hnr
    rw [hrdy] at hr
    rw [hname]
    rcases hq with h | h
    · exact hi.named q h hr hnr'
    · cases h
  · refine ⟨fun y t0 h0 => ⟨t0, by rw [hatt]; exact h0, .refl t0⟩, by omega, fun q _ h => (hrdy q).trans h,
      fun q _ h => hret q h, fun h => ?_, fun q _ h => ?_, fun y _ h => hlife.trans h⟩
    · rw [hl] at h; cases h
    · rw [hl] at h; cases h
  · exact ⟨hlife.trans hl, t, by rw [hatt]; exact ht, hp, hrbm, hnew⟩
  · rw [hatt] at ht'
    exact (hi.attachments y t' ht' hc).frame (.refl t') (fun h _ => by rwa [hpart]) (hret _) fun h => .inl (hlife.trans h)
  · rw [hlife, hl] at hy
    cases hy
    obtain ⟨t0, h0, hok0⟩ := hi.life x hl
    rw [ht] at h0
    cases h0
    exact ⟨t, by rw [hatt]; exact ht, by rw [h]; exact hok0.alive, by rw [hname]; exact hok0.name,
      fun e => by rw [hrbm] at e; cases e⟩
  · cases hy
    exact .inl (by rw [hpc]; rfl)

/-- The unlink ends the reader; its object is retired. -/
theorem unlink_inv {s : St} (hi : Inv s) {τ : Thread} {x : Nat} {held : Bool} (hτ : s.crashed τ.1 = false)
    (hpc : s.threads τ = .unlink x held) :
    Inv { setThread s τ (afterClose x held) with
      name := none
      life := if s.life = some (.reading x) then none else s.life } := by
  obtain ⟨hl, t, ht, hp, hrbm, hret⟩ : s.life = some (.reading x) ∧
      Mine s τ x fun t => t.retiredByMe = true ∧ (s.objects t.object).retired = true := by
    have := hi.threads τ hτ
    rwa [hpc] at this
  refine hi.settle rfl rfl rfl rfl (changed_of_eq .refl rfl) (shrunk_of_eq rfl) (.inr ⟨rfl, fun o ho _ _ => ?_, ?_⟩)
    ⟨fun σ _ h => ?_, fun y h => .inr ?_, fun y h => ?_⟩ hi.registry
    (fun o ho => by rw [afterClose_attaching] at ho; cases ho) (afterClose_retiring x held) fun _ => ?_
  · obtain ⟨t', ht', hok⟩ := hi.life x hl
    rw [ht] at ht'
    cases ht'
    rcases hok.name with e | e
    · rw [e] at ho; cases ho; exact hret
    · rw [e] at ho; cases ho
  · intro σ o _ _ _ hc
    rw [hl] at hc
    cases hc
  · rw [hl] at h; cases h
  · rw [hl] at h
    cases h
    refine ⟨fun t' ht' => ?_, fun σ hσ hσc hr => hσ ?_⟩
    · rw [ht] at ht'; cases ht'; exact ⟨hrbm, hret⟩
    · exact hi.oneRetirer σ τ x hσc hτ hr (by rw [hpc]; rfl)
  · simp only [hl, if_true] at h
    cases h
  · exact afterClose_ok ⟨t, ht, hp, trivial⟩

/-! ## Every step -/

theorem openStep_inv {s s' : St} (hi : Inv s) {τ : Thread} {good : Bool} (hτ : s.crashed τ.1 = false)
    (h : openStep s τ good (s.threads τ) = some s') : Inv s' := by
  have hok := hi.threads τ hτ
  cases hpc : s.threads τ <;> rw [hpc] at h hok <;> simp only [openStep, reduceCtorEq] at h
  case excl =>
    split at h
    · rename_i hname
      cases h
      exact create_inv hi hτ hpc hname rfl
    · cases h
      exact hi.setThread (fun o ho => by cases ho) rfl fun _ _ => hok
  case reopening kind =>
    split at h
    · cases h
      exact fail_plain hi hok
    · rename_i o hname
      cases h
      exact hi.setThread (fun q hq => by cases hq; exact fun _ _ => hname) rfl fun _ => ⟨hi.resolved o hname, hok⟩
  case initializing o =>
    split at h
    · cases h
      exact ready_inv hi hτ hpc rfl
    · cases h
      obtain ⟨hl, -, hname, hblank⟩ := hok
      refine hi.settle rfl rfl rfl rfl (changed_of_eq .refl rfl) (shrunk_of_eq rfl)
        (.inr ⟨rfl, fun q hq _ hr => ?_, fun σ q hσ _ _ hc => ?_⟩) (lifeKept_given_up hl rfl) hi.registry
        (fun q hq => by cases hq) rfl fun _ => trivial
      · rw [hname] at hq
        cases hq
        rw [hblank] at hr
        cases hr
      · rw [hl] at hc
        cases hc
        exact absurd rfl hσ
  case checking kind o =>
    split at h
    · split at h
      · rename_i hready
        split at h
        · cases h
          exact fail_plain hi hok.2
        · rename_i hret
          cases h
          have hself : Attached s o := .inr ⟨τ, hτ, by rw [hpc]; rfl⟩
          refine hi.setThread (fun q hq => by cases hq; exact hi.named o hself) rfl fun _ =>
            ⟨hok.1, hready, fun hk => ⟨hok.2 hk, by simpa using hret⟩⟩
      · cases h
    · cases h
      exact fail_plain hi hok.2
  case claiming kind o =>
    split at h
    · cases h
      exact claim_inv hi hτ hpc rfl
    · cases h
      exact fail_inv hi rfl rfl rfl rfl (changed_of_eq .refl rfl) (reclaim_shrunk s o) rfl rfl rfl fun hk => (hok.2.2 hk).1
  case notifier kind x =>
    obtain ⟨t, ht, hp, hk⟩ := hok
    obtain ⟨t', ht', h⟩ := Option.bind_eq_some_iff.mp h
    rw [ht] at ht'
    cases ht'
    have hreg : ∀ p y, Function.update s.registry τ.1 (some x) p = some y →
        ∃ t, s.attachments y = some t ∧ t.process = p := by
      intro p y hy
      by_cases e : p = τ.1
      · subst e
        rw [Function.update_self] at hy
        cases hy
        exact ⟨t, ht, hp⟩
      · rw [Function.update_of_ne e] at hy
        exact hi.registry p y hy
    split at h
    · split at h
      · cases h
        refine hi.quiet rfl rfl rfl rfl (changed_setAttachment .refl rfl fun t _ => .recount t 1 t.writerEndpoints) rfl rfl
          rfl hreg
          (fun q hq => by cases hq) rfl fun _ => ⟨(hk rfl).1, mine_setAttachment rfl ht hp (hk rfl).2⟩
      · cases h
        refine hi.quiet rfl rfl rfl rfl ?_ rfl rfl rfl hreg (fun q hq => by cases hq) rfl fun _ => trivial
        have h1 : Changed Attachment.Settled s (setAttachment s x fun t => { t with refs := 1 }) :=
          changed_setAttachment .refl rfl fun t _ => .recount t 1 t.writerEndpoints
        exact h1.trans (changed_setAttachment .refl rfl fun t _ => .recount t t.refs 1)
    · cases h
      refine fail_inv hi rfl rfl rfl rfl (changed_setAttachment .refl rfl fun t _ => .shut t)
        (erase_shrunk rfl fun t' ht' => ?_) rfl rfl rfl fun hkr => (hk hkr).1
      simp only [setAttachment_attachments, if_true] at ht'
      obtain ⟨t0, -, rfl⟩ := Option.map_eq_some_iff.mp ht'
      rfl
  case adding x =>
    obtain ⟨hl, t, ht, hp, hnr⟩ := hok
    obtain ⟨t', ht', h⟩ := Option.bind_eq_some_iff.mp h
    rw [ht] at ht'
    cases ht'
    split at h
    · cases h
      exact hi.settle rfl rfl rfl rfl (changed_of_eq .refl rfl) (shrunk_of_eq rfl) (.inl rfl) (lifeKept_given_up hl rfl)
        hi.registry (fun q hq => by cases hq) rfl fun _ => ⟨t, ht, hp, trivial⟩
    · rename_i hopen
      cases h
      exact add_inv hi hτ hpc ht (by simpa using hopen) rfl

theorem closeStep_inv {s s' : St} (hi : Inv s) {τ : Thread} (hτ : s.crashed τ.1 = false)
    (hcond : ∀ x held, s.threads τ = .removing x held → ∀ o, s.name = some o → ¬ Attached s o)
    (h : closeStep s τ (s.threads τ) = some s') : Inv s' := by
  have hok := hi.threads τ hτ
  cases hpc : s.threads τ <;> rw [hpc] at h hok <;>
    simp only [closeStep, reduceCtorEq, Option.some.injEq, Option.map_eq_some_iff] at h
  case removingReader x =>
    obtain ⟨t, ht, rfl⟩ := h
    obtain ⟨hp, hhad⟩ := Mine.at hok ht
    have hless : ∀ t : Attachment, t.Settled { t with readers := t.readers - 1 } :=
      fun _ => ⟨rfl, rfl, rfl, rfl, id, Nat.sub_le _ _, fun _ => rfl, id⟩
    refine hi.quiet rfl rfl rfl rfl (changed_setAttachment .refl rfl fun t _ => hless t) rfl rfl rfl hi.registry
      (fun q hq => ?_) ?_ fun _ => ?_
    · split at hq <;> cases hq
    · split <;> rfl
    · split
      · rename_i hz
        exact mine_setAttachment rfl ht hp ⟨hhad, hz⟩
      · exact mine_setAttachment rfl ht hp trivial
  case exchange x held =>
    obtain ⟨t, ht, rfl⟩ := h
    split
    · exact hi.setThread (fun q hq => by rw [afterClose_attaching] at hq; cases hq) (afterClose_retiring x held)
        fun _ => afterClose_ok (Mine.weaken hok fun _ _ => trivial)
    · rename_i hf
      exact exchange_inv hi hτ hpc ht (by simpa using hf) rfl
  case retireFlag x held =>
    obtain ⟨t, ht, rfl⟩ := h
    exact retireFlag_inv hi hτ hpc ht rfl
  case unlink x held =>
    subst h
    exact unlink_inv hi hτ hpc
  case dropping x =>
    obtain ⟨t, ht, rfl⟩ := h
    obtain ⟨hp, -⟩ := Mine.at hok ht
    refine hi.quiet rfl rfl rfl rfl (changed_setAttachment .refl rfl fun t _ => .recount t (t.refs - 1) t.writerEndpoints)
      rfl rfl rfl hi.registry (fun q hq => ?_) ?_ fun _ => ?_
    · split at hq <;> cases hq
    · split <;> rfl
    · split
      · exact mine_setAttachment rfl ht hp trivial
      · trivial
  case closing x held =>
    obtain ⟨t, ht, rfl⟩ := h
    split
    · exact hi.setThread (fun q hq => by rw [afterClose_attaching] at hq; cases hq) (afterClose_retiring x held)
        fun _ => afterClose_ok hok
    · obtain ⟨hp, -⟩ := Mine.at hok ht
      refine hi.quiet rfl rfl rfl rfl (changed_setAttachment .refl rfl fun t _ => .shut t) rfl rfl rfl hi.registry
        (fun q hq => by cases hq) rfl fun _ => mine_setAttachment rfl ht hp ⟨rfl, fun hh => ?_⟩
      -- a reader still there counts as one that was there
      rcases Bool.or_eq_true_iff.mp hh with e | e
      · exact ((hi.attachments x t ht (by rw [hp]; exact hτ)).readers (of_decide_eq_true e)).2.1
      · exact e
  case releasing x had held =>
    obtain ⟨t, ht, rfl⟩ := h
    obtain ⟨hp, hcl, hhad⟩ := Mine.at hok ht
    refine hi.settle rfl rfl rfl rfl (changed_of_eq .refl rfl) (erase_shrunk rfl fun t' ht' => ?_) (.inl rfl)
      (lifeKept_of_eq τ rfl) hi.registry (fun q hq => ?_) ?_ fun _ => ?_
    · have : s.attachments x = some t' := ht'
      rw [ht] at this
      cases this
      exact hcl
    · split at hq <;> cases hq
    · split <;> rfl
    · split
      · rename_i hh
        refine ⟨t, ht, hp, hhad hh, ?_⟩
        by_contra hne
        have := ((hi.attachments x t ht (by rw [hp]; exact hτ)).readers (by omega)).1
        rw [hcl] at this
        cases this
      · exact ⟨t, ht, hp, trivial⟩
  case retiredCheck x held =>
    subst h
    refine hi.setThread (fun q hq => ?_) ?_ fun _ => ?_
    · split at hq
      · rw [afterClose_attaching] at hq; cases hq
      · cases hq
    · split
      · exact afterClose_retiring x held
      · rfl
    · split
      · exact afterClose_ok hok
      · exact hok
  case liveCheck x held =>
    obtain ⟨t, ht, rfl⟩ := h
    refine hi.settle rfl rfl rfl rfl (changed_of_eq .refl rfl) ⟨(reclaim_shrunk s t.object).1, (reclaim_shrunk s t.object).2,
      (reclaim_shrunk s t.object).3, (reclaim_shrunk s t.object).4⟩ (.inl rfl)
      (lifeKept_of_eq τ rfl) hi.registry (fun q hq => ?_) ?_ fun _ => ?_
    · split at hq
      · cases hq
      · rw [afterClose_attaching] at hq; cases hq
    · split
      · rfl
      · exact afterClose_retiring x held
    · split
      · exact hok
      · exact afterClose_ok hok
  case removing x held =>
    subst h
    refine hi.settle rfl rfl rfl rfl (changed_of_eq .refl rfl) (shrunk_of_eq rfl)
      (.inr ⟨rfl, fun o ho ha => absurd ha (hcond x held hpc o ho), fun σ o _ hσ hs _ ho => ?_⟩) (lifeKept_of_eq τ rfl)
      hi.registry (fun q hq => by rw [afterClose_attaching] at hq; cases hq) (afterClose_retiring x held)
      fun _ => afterClose_ok hok
    exact hcond x held hpc o ho (.inr ⟨σ, hσ, by rw [hs]; rfl⟩)

theorem crash_inv {s s' : St} (hi : Inv s) {p : Nat}
    (h : s' = { s with
      crashed := Function.update s.crashed p true
      life := s.life.bind fun l => if l.process s = some p then none else some l }) : Inv s' := by
  have hcr : ∀ q, s'.crashed q = false → q ≠ p ∧ s.crashed q = false := by
    intro q hq
    rw [h] at hq
    by_cases e : q = p
    · subst e; simp at hq
    · exact ⟨e, by simpa [e] using hq⟩
  have hcr' : ∀ q, q ≠ p → s.crashed q = false → s'.crashed q = false := by
    intro q e hq
    rw [h]
    simpa [e] using hq
  have hlife : ∀ l, s'.life = some l → s.life = some l ∧ l.process s ≠ some p := by
    intro l hl
    rw [h] at hl
    obtain ⟨l', hl', hc⟩ := Option.bind_eq_some_iff.mp hl
    split at hc
    · cases hc
    · cases hc; exact ⟨hl', ‹_›⟩
  have hkept : ∀ l, s.life = some l → l.process s ≠ some p → s'.life = some l := by
    intro l hl hne
    rw [h]
    simp [hl, hne]
  have hatt : s'.attachments = s.attachments := by rw [h]
  have hobj : s'.objects = s.objects := by rw [h]
  have hname : s'.name = s.name := by rw [h]
  have hth : s'.threads = s.threads := by rw [h]
  refine ⟨by rw [hatt, h]; exact hi.fresh, by rw [hatt, h]; exact hi.older, by rw [hname, h]; exact hi.resolved,
    by rw [hatt, hobj]; exact hi.known, fun o ho => ?_, by rw [hatt, h]; exact hi.registry, fun σ hσ => ?_,
    fun x t ht hc => ?_, fun x hx => ?_, fun σ ρ x hσ hρ => ?_⟩
  · have hwas : Attached s o := by
      rcases ho with ⟨x, hx, hl⟩ | ⟨σ, hσ, ha⟩
      · rw [hobj] at hx
        refine .inl ⟨x, hx, ?_⟩
        simp only [isLive, hatt] at hl ⊢
        cases ht : s.attachments x with
        | none => rw [ht] at hl; cases hl
        | some t =>
          simp only [ht, Bool.not_eq_true'] at hl ⊢
          exact (hcr _ hl).2
      · rw [hth] at ha
        exact .inr ⟨σ, (hcr _ hσ).2, ha⟩
    simpa only [Named, hobj, hname] using hi.named o hwas
  · obtain ⟨hne, hσ⟩ := hcr _ hσ
    rw [hth]
    refine (hi.threads σ hσ).frame hi ⟨fun x t ht => ⟨t, by rw [hatt]; exact ht, .refl t⟩, Nat.le_of_eq (by rw [h]),
      fun o _ h => by rwa [hobj], fun o _ h => by rwa [hobj], fun hl => ⟨hkept _ hl ?_, fun o _ h => by rwa [hobj]⟩,
      fun o _ _ h1 h2 => ⟨hname.trans h1, by rwa [hobj]⟩, fun x hr hl => hkept _ hl ?_⟩
    · simpa [Life.process] using hne
    · -- the retiring thread and its attachment belong to the same process
      have hok := hi.threads σ hσ
      cases hpc : s.threads σ <;> rw [hpc] at hr hok <;> cases hr
      · obtain ⟨-, t, ht, hp, -⟩ := hok
        simpa [Life.process, ht, hp] using hne
      · obtain ⟨-, t, ht, hp, -⟩ := hok
        simpa [Life.process, ht, hp] using hne
  · obtain ⟨hne, hc⟩ := hcr _ hc
    rw [hatt] at ht
    refine (hi.attachments x t ht hc).frame (.refl t) (fun h _ => by rwa [hobj]) (fun h => by rwa [hobj])
      fun hl => .inl (hkept _ hl ?_)
    simpa [Life.process, ht] using hne
  · obtain ⟨hl, hne⟩ := hlife _ hx
    obtain ⟨t, ht, hok⟩ := hi.life x hl
    refine ⟨t, by rw [hatt]; exact ht, hcr' _ ?_ hok.alive, by rw [hname]; exact hok.name, by rw [hobj]; exact hok.unretired⟩
    simpa [Life.process, ht] using hne
  · rw [hth]
    exact hi.oneRetirer σ ρ x (hcr _ hσ).2 (hcr _ hρ).2

theorem step_inv {s s' : St} {a : Act} (hi : Inv s) (hok : oneReader s a ∧ nobodyAttached s a)
    (h : step s a = some s') : Inv s' := by
  cases a with
  | openTransport p =>
    simp only [step] at h
    split at h
    · cases h
    · cases h
      exact ⟨hi.fresh, hi.older, hi.resolved, hi.known, hi.named, hi.registry,
        fun τ hτ => (hi.threads τ hτ).frame hi ⟨fun x t ht => ⟨t, ht, .refl t⟩, Nat.le_refl _, fun _ _ => id, fun _ _ => id,
          fun hl => ⟨hl, fun _ _ => id⟩, fun _ _ _ h1 h2 => ⟨h1, h2⟩, fun _ _ hl => hl⟩,
        fun x t ht hc => (hi.attachments x t ht hc).frame (.refl t) (fun h _ => h) id fun hl => .inl hl,
        fun x hx => by
          obtain ⟨t, ht, hl⟩ := hi.life x hx
          exact ⟨t, ht, hl.alive, hl.name, hl.unretired⟩, hi.oneRetirer⟩
  | createReader τ =>
    simp only [step] at h
    split at h
    · cases h
    · exact createEndpoint_inv hi (fun _ => hok.1) h
  | createWriter τ =>
    simp only [step] at h
    split at h
    · cases h
    · exact createEndpoint_inv hi (fun hk => by cases hk) h
  | closeReader τ x =>
    obtain ⟨t, ht, h⟩ := Option.bind_eq_some_iff.mp h
    split at h
    · rename_i hg
      cases h
      have hless : ∀ t : Attachment, t.Settled { t with readerEndpoints := t.readerEndpoints - 1 } :=
        fun _ => ⟨rfl, rfl, rfl, rfl, id, Nat.le_refl _, fun _ => rfl, fun e => by simp only at e; omega⟩
      exact hi.quiet rfl rfl rfl rfl (changed_setAttachment .refl rfl fun t _ => hless t) rfl rfl rfl hi.registry
        (fun q hq => by cases hq) rfl fun hc => mine_setAttachment rfl ht hg.2.2.1
          ((hi.attachments x t ht (by rw [hg.2.2.1]; exact hc)).endpoints hg.2.2.2)
    · cases h
  | closeWriter τ x =>
    obtain ⟨t, ht, h⟩ := Option.bind_eq_some_iff.mp h
    split at h
    · rename_i hg
      cases h
      exact hi.quiet rfl rfl rfl rfl
        (changed_setAttachment .refl rfl fun t _ => .recount t t.refs (t.writerEndpoints - 1)) rfl rfl rfl hi.registry
        (fun q hq => by cases hq) rfl fun _ => mine_setAttachment rfl ht hg.2.2.1 trivial
    · cases h
  | closeTransport τ =>
    simp only [step] at h
    split at h
    · rename_i hg
      split at h
      · rename_i x hx
        cases h
        obtain ⟨y, hy, hx⟩ := Option.bind_eq_some_iff.mp hx
        obtain ⟨t, ht, hx⟩ := Option.bind_eq_some_iff.mp hx
        split at hx
        · cases hx
          obtain ⟨t', ht', hp⟩ := hi.registry _ _ hy
          rw [ht] at ht'
          cases ht'
          exact hi.quiet rfl rfl rfl rfl (addRef_changed s x) rfl rfl rfl (hi.registry_erased τ.1)
            (fun q hq => by cases hq) rfl fun _ => mine_setAttachment rfl ht hp trivial
        · cases hx
      · cases h
        exact hi.quiet rfl (threads_idle hg.2.1) rfl rfl (changed_of_eq .refl rfl) rfl rfl rfl (hi.registry_erased τ.1)
          (fun q hq => by cases hq) rfl fun _ => trivial
    · cases h
  | advance τ good =>
    simp only [step] at h
    split at h
    · cases h
    · rename_i hτ
      have hτ : s.crashed τ.1 = false := by simpa using hτ
      rcases Option.or_eq_some_iff.mp h with h | ⟨-, h⟩
      · exact openStep_inv hi hτ h
      · exact closeStep_inv hi hτ (hok.2) h
  | crash p =>
    simp only [step, Option.some.injEq] at h
    exact crash_inv hi h.symm

theorem inv {s : St} (h : Reach step (fun s a => oneReader s a ∧ nobodyAttached s a) (· = init) s) : Inv s :=
  h.invariant (fun _ hs => hs ▸ init_inv) fun _ _ _ hi hok hst => step_inv hi hok hst

/-- A reader that CreateReader returned and that is neither closed nor crashed reads a
    segment that is not retired and has the name. -/
theorem live_reader_has_the_name {s : St}
    (h : Reach step (fun s a => oneReader s a ∧ nobodyAttached s a) (· = init) s) {x : Nat} {t : Attachment}
    (ht : s.attachments x = some t) (hr : 0 < t.readers) (hc : s.crashed t.process = false) :
    (s.objects t.object).retired = false ∧ s.name = some t.object := by
  have hi := inv h
  have hok := hi.attachments x t ht hc
  obtain ⟨hopen, hhad, hrbm⟩ := hok.readers hr
  obtain ⟨t', ht', hlife⟩ := hi.life x (hok.living hhad hrbm)
  rw [ht] at ht'
  cases ht'
  have hin := hok.joined hopen
  have hnr := hlife.unretired hrbm
  exact ⟨hnr, hi.named t.object (.inl ⟨x, hin, by simp [isLive, ht, hc]⟩) (hi.known _ x hin).1 hnr⟩

/-! ## Runs -/

def oneReaderCheck (s : St) : Act → Bool
  | .createReader _ => decide (s.life = none)
  | _ => true

theorem oneReader_of_check (s : St) (a : Act) (h : oneReaderCheck s a = true) : oneReader s a := by
  cases a <;> try trivial
  exact of_decide_eq_true (p := s.life = none) h

/-- No writer-only Close gets as far as the unlink. -/
def noUnlinkCheck (s : St) : Act → Bool
  | .advance τ _ => match s.threads τ with
    | .removing _ _ => false
    | _ => true
  | _ => true

theorem nobodyAttached_of_check (s : St) (a : Act) (h : noUnlinkCheck s a = true) : nobodyAttached s a := by
  cases a <;> try trivial
  rename_i τ good
  intro x held hpc
  simp only [noUnlinkCheck, hpc] at h
  cases h

def advances (τ : Thread) (n : Nat) : List Act := List.replicate n (.advance τ true)

/-- Process 1 reads, process 2 writes, and process 1 crashes. -/
def readerCrashes : List Act :=
  [Act.openTransport 1, .openTransport 2, .openTransport 3, .createReader (1, 0)] ++ advances (1, 0) 5 ++
  [Act.createWriter (2, 0)] ++ advances (2, 0) 4 ++ [Act.crash 1]

/-- Process 3 takes over the segment. -/
def readerReturns : List Act := [Act.createReader (3, 0)] ++ advances (3, 0) 6

def readsObjectZero (s : St) : Bool :=
  match s.attachments 2 with
  | some t => decide (t.process = 3 ∧ t.object = 0 ∧ 0 < t.readers ∧ s.crashed 3 = false)
  | none => false

theorem the_second_reader_has_the_name :
    ∃ s, Reach step (fun s a => oneReader s a ∧ nobodyAttached s a) (· = init) s ∧ s.name = some 0 := by
  obtain ⟨s, hs, hp⟩ :
      ∃ s, Reach step (fun s a => oneReader s a ∧ nobodyAttached s a) (· = init) s ∧ readsObjectZero s = true :=
    reach_of_check (fun s a => oneReaderCheck s a && noUnlinkCheck s a) (readerCrashes ++ readerReturns) readsObjectZero
      (fun s a h => by
        have h := Bool.and_eq_true_iff.mp h
        exact ⟨oneReader_of_check s a h.1, nobodyAttached_of_check s a h.2⟩) rfl (by decide +kernel)
  simp only [readsObjectZero] at hp
  split at hp
  · rename_i t ht
    obtain ⟨h1, h2, h3, h4⟩ := of_decide_eq_true hp
    have hname := (live_reader_has_the_name hs ht h3 (by rw [h1]; exact h4)).2
    exact ⟨s, hs, by rw [hname, h2]⟩
  · cases hp

/-- After the crash the writer closes: its checks find nobody, process 3 takes over the
    segment, and the writer unlinks the name. -/
def unlinkTooLate : List Act :=
  readerCrashes ++ [Act.closeWriter (2, 0) 1] ++ advances (2, 0) 5 ++ readerReturns ++ advances (2, 0) 1

theorem a_closing_writer_unlinks_a_live_readers_name :
    ∃ (s : St) (t : Attachment), Reach step oneReader (· = init) s ∧ s.attachments 2 = some t ∧ 0 < t.readers ∧
      s.crashed t.process = false ∧ s.name = none := by
  obtain ⟨s, hs, hp⟩ : ∃ s, Reach step oneReader (· = init) s ∧ (readsObjectZero s && decide (s.name = none)) = true :=
    reach_of_check oneReaderCheck unlinkTooLate (fun s => readsObjectZero s && decide (s.name = none)) oneReader_of_check
      rfl (by decide +kernel)
  obtain ⟨hread, hname⟩ := Bool.and_eq_true_iff.mp hp
  simp only [readsObjectZero] at hread
  split at hread
  · rename_i t ht
    obtain ⟨h1, -, h3, h4⟩ := of_decide_eq_true hread
    exact ⟨s, t, hs, ht, h3, by rw [h1]; exact h4, of_decide_eq_true hname⟩
  · cases hread

end PuppetMaster.Shm.Lifetime
