import TradingRules.Value.Fault

/-!
# What stateful steps come to

Interpreters and supervisors change a state in steps that can fail half-way. A step takes a state to
an outcome and to the state it leaves behind; what it changed stays changed when it fails. The
equations below take a step apart.
-/

namespace ExceptT

variable {σ ε α β : Type}

def exec (x : ExceptT ε (StateM σ) α) (s : σ) : Except ε α × σ :=
  x.run.run s

variable (s : σ)

@[simp] theorem exec_pure (a : α) : (pure a : ExceptT ε (StateM σ) α).exec s = (.ok a, s) := rfl

@[simp] theorem exec_throw (e : ε) :
    (throw e : ExceptT ε (StateM σ) α).exec s = (.error e, s) := rfl

@[simp] theorem exec_get : (get : ExceptT ε (StateM σ) σ).exec s = (.ok s, s) := rfl

@[simp] theorem exec_set (s' : σ) :
    (set s' : ExceptT ε (StateM σ) PUnit).exec s = (.ok ⟨⟩, s') := rfl

@[simp] theorem exec_modify (f : σ → σ) :
    (modify f : ExceptT ε (StateM σ) PUnit).exec s = (.ok ⟨⟩, f s) := rfl

@[simp] theorem exec_liftM (result : Except ε α) :
    (liftM result : ExceptT ε (StateM σ) α).exec s = (result, s) := by
  cases result <;> rfl

theorem exec_bind (x : ExceptT ε (StateM σ) α) (f : α → ExceptT ε (StateM σ) β) :
    (x >>= f).exec s = match x.exec s with
      | (.ok a, s') => (f a).exec s'
      | (.error e, s') => (.error e, s') := by
  rcases hx : x.exec s with ⟨e | a, s'⟩ <;>
  · rw [exec] at hx
    simp only [exec, ExceptT.run_bind, StateT.run_bind]
    rw [hx]
    rfl

theorem exec_bind_ok {x : ExceptT ε (StateM σ) α} {a : α} {s s' : σ} (h : x.exec s = (.ok a, s'))
    (f : α → ExceptT ε (StateM σ) β) : (x >>= f).exec s = (f a).exec s' := by
  rw [exec_bind, h]

theorem exec_bind_error {x : ExceptT ε (StateM σ) α} {e : ε} {s s' : σ}
    (h : x.exec s = (.error e, s')) (f : α → ExceptT ε (StateM σ) β) :
    (x >>= f).exec s = (.error e, s') := by
  rw [exec_bind, h]

/-- What is made of the answer of a step changes nothing any more. -/
theorem exec_bind_pure_snd (x : ExceptT ε (StateM σ) α) (f : α → β) (s : σ) :
    ((x >>= fun a => pure (f a)).exec s).2 = (x.exec s).2 := by
  rw [exec_bind]
  rcases x.exec s with ⟨e | a, s'⟩ <;> rfl

theorem exec_liftM_bind_ok {result : Except ε α} {a : α} (h : result = .ok a) (s : σ)
    (f : α → ExceptT ε (StateM σ) β) :
    ((liftM result : ExceptT ε (StateM σ) α) >>= f).exec s = (f a).exec s :=
  exec_bind_ok (by rw [exec_liftM, h]) f

theorem exec_liftM_bind_error {result : Except ε α} {e : ε} (h : result = .error e) (s : σ)
    (f : α → ExceptT ε (StateM σ) β) :
    ((liftM result : ExceptT ε (StateM σ) α) >>= f).exec s = (.error e, s) :=
  exec_bind_error (by rw [exec_liftM, h]) f

@[simp] theorem exec_map (f : α → β) (x : ExceptT ε (StateM σ) α) :
    (f <$> x).exec s = ((x.exec s).1.map f, (x.exec s).2) := by
  rw [map_eq_pure_bind, exec_bind]
  rcases x.exec s with ⟨e | a, s'⟩ <;> rfl

theorem exec_tryCatch (x : ExceptT ε (StateM σ) α) (handle : ε → ExceptT ε (StateM σ) α) :
    (tryCatch x handle).exec s = match x.exec s with
      | (.ok a, s') => (.ok a, s')
      | (.error e, s') => (handle e).exec s' := by
  have hexec : (tryCatch x handle).exec s = (match (x.exec s).1 with
      | .ok a => pure (.ok a)
      | .error e => handle e : StateM σ (Except ε α)) (x.exec s).2 := rfl
  rw [hexec]
  rcases x.exec s with ⟨e | a, s'⟩ <;> rfl

/-- Wherever it starts, a step ends in a state that is related to the first one, and it fails only
with certain faults. -/
def Within (R : σ → σ → Prop) (E : ε → Prop) (x : ExceptT ε (StateM σ) α) : Prop :=
  ∀ s, R s (x.exec s).2 ∧ ∀ e, (x.exec s).1 = .error e → E e

/-- A relation that a step stays within when its parts do. -/
structure Steady (R : σ → σ → Prop) : Prop where
  refl : ∀ s, R s s
  trans : ∀ {a b c}, R a b → R b c → R a c

namespace Steady

variable {R : σ → σ → Prop} {E : ε → Prop}

theorem within_pure (hR : Steady R) (a : α) : Within R E (pure a : ExceptT ε (StateM σ) α) :=
  fun s => ⟨hR.refl s, fun e h => by simp at h⟩

theorem within_liftM (hR : Steady R) {result : Except ε α}
    (hresult : ∀ e, result = .error e → E e) :
    Within R E (liftM result : ExceptT ε (StateM σ) α) := by
  intro s
  rw [exec_liftM]
  exact ⟨hR.refl s, hresult⟩

theorem within_bind (hR : Steady R) {x : ExceptT ε (StateM σ) α}
    {f : α → ExceptT ε (StateM σ) β} (hx : Within R E x) (hf : ∀ a, Within R E (f a)) :
    Within R E (x >>= f) := by
  intro s
  obtain ⟨hfirst, hfaults⟩ := hx s
  rw [exec_bind]
  generalize x.exec s = result at hfirst hfaults ⊢
  obtain ⟨e | a, s'⟩ := result
  · refine ⟨hfirst, fun e' h => ?_⟩
    cases h
    exact hfaults e rfl
  · obtain ⟨hsecond, hrest⟩ := hf a s'
    exact ⟨hR.trans hfirst hsecond, hrest⟩

end Steady

end ExceptT
