/-
  PuppetMaster.Lib.Calls — an object that answers calls, one after another.

  `step s c` is the answer to call `c` and the state it leaves, or `none` when the call
  does not return. `answers` makes a list of calls. Two objects that are related, and
  whose answers are the same and keep them related, answer every list alike
  (`answers_agree`); the relation may speak about the calls that are still to come.
-/

namespace PuppetMaster.Lib

universe u v

variable {σ τ : Type u} {ι ο : Type v}

def answers (step : σ → ι → Option (ο × σ)) : σ → List ι → Option (List ο × σ)
  | s, [] => some ([], s)
  | s, c :: cs => (step s c).bind fun answered => (answers step answered.2 cs).map fun rest => (answered.1 :: rest.1, rest.2)

theorem answers_cons {step : σ → ι → Option (ο × σ)} {s s' s'' : σ} {c : ι} {cs : List ι} {o : ο} {os : List ο}
    (h : step s c = some (o, s')) (hrest : answers step s' cs = some (os, s'')) :
    answers step s (c :: cs) = some (o :: os, s'') := by
  rw [answers, h, Option.bind_some, hrest, Option.map_some]

theorem answers_append {step : σ → ι → Option (ο × σ)} {s s' s'' : σ} {cs cs' : List ι} {os os' : List ο}
    (h : answers step s cs = some (os, s')) (h' : answers step s' cs' = some (os', s'')) :
    answers step s (cs ++ cs') = some (os ++ os', s'') := by
  induction cs generalizing s os with
  | nil =>
    cases h
    exact h'
  | cons c cs ih =>
    obtain ⟨⟨o, t⟩, hstep, h⟩ := Option.bind_eq_some_iff.mp h
    obtain ⟨⟨rest, t'⟩, hrest, h⟩ := Option.map_eq_some_iff.mp h
    cases h
    exact answers_cons hstep (ih hrest)

theorem answers_agree {step : σ → ι → Option (ο × σ)} {step' : τ → ι → Option (ο × τ)} {R : List ι → σ → τ → Prop}
    (hstep : ∀ {c cs s t}, R (c :: cs) s t →
      ∃ o s' t', step s c = some (o, s') ∧ step' t c = some (o, t') ∧ R cs s' t')
    {cs : List ι} {s : σ} {t : τ} (h : R cs s t) :
    ∃ os s' t', answers step s cs = some (os, s') ∧ answers step' t cs = some (os, t') ∧ R [] s' t' := by
  induction cs generalizing s t with
  | nil => exact ⟨[], s, t, rfl, rfl, h⟩
  | cons c cs ih =>
    obtain ⟨o, s', t', hs, ht, hnext⟩ := hstep h
    obtain ⟨os, s'', t'', hs', ht', hend⟩ := ih hnext
    exact ⟨o :: os, s'', t'', answers_cons hs hs', answers_cons ht ht', hend⟩

end PuppetMaster.Lib
