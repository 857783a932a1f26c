import Mathlib.Tactic.Common
import TradingRules.Logic.Control
import TradingRules.Proofs.Lists

/-!
# Successful outcomes

A chain of steps succeeds exactly when each step does, so that a successful outcome can be taken
apart into the values that were met on the way.
-/

namespace TradingRules

namespace Outcome

variable {α β : Type}

theorem bind_eq_ok {x : Outcome α} {f : α → Outcome β} {b : β} :
    (x >>= f) = .ok b ↔ ∃ a, x = .ok a ∧ f a = .ok b := by
  cases x <;> simp [bind, Except.bind]

@[simp] theorem ok_bind (a : α) (f : α → Outcome β) : ((.ok a : Outcome α) >>= f) = f a := rfl

@[simp] theorem error_bind (e : Fault) (f : α → Outcome β) :
    ((.error e : Outcome α) >>= f) = .error e := rfl

@[simp] theorem pure_eq_ok (a : α) : (pure a : Outcome α) = .ok a := rfl

theorem map_eq_ok {x : Outcome α} {f : α → β} {b : β} :
    x.map f = .ok b ↔ ∃ a, x = .ok a ∧ f a = b := by
  cases x <;> simp [Except.map]

theorem map_eq_error {x : Outcome α} {f : α → β} {e : Fault} :
    x.map f = .error e ↔ x = .error e := by
  cases x <;> simp [Except.map]

theorem filterM_eq_pure {m : Type → Type} [Monad m] [LawfulMonad m] {p : α → m Bool}
    {q : α → Bool} {l : List α} (h : ∀ a ∈ l, p a = pure (q a)) :
    l.filterM p = pure (l.filter q) := by
  have haux : ∀ acc, l.filterAuxM p acc = pure ((l.filter q).reverse ++ acc) := by
    induction l with
    | nil => exact fun acc => rfl
    | cons a l ih =>
      intro acc
      have ih := ih fun b hb => h b (List.mem_cons_of_mem a hb)
      simp only [List.filterAuxM, h a List.mem_cons_self, pure_bind, ih]
      cases hq : q a <;> simp [hq]
  simp [List.filterM, haux]

theorem filterM_eq_ok {p : α → Outcome Bool} {q : α → Bool} {l : List α}
    (h : ∀ a ∈ l, p a = .ok (q a)) : l.filterM p = .ok (l.filter q) :=
  filterM_eq_pure h

/-- A filter is a plain one, or it stops at an item whose test fails. -/
theorem filterM_cases (p : α → Outcome Bool) (l : List α) :
    (∃ q : α → Bool, (∀ a ∈ l, p a = .ok (q a)) ∧ l.filterM p = .ok (l.filter q)) ∨
      ∃ a ∈ l, ∃ e, p a = .error e ∧ l.filterM p = .error e := by
  by_cases hall : ∀ a ∈ l, ∃ b, p a = .ok b
  · choose! q hq using hall
    exact .inl ⟨q, hq, filterM_eq_ok hq⟩
  · right
    have haux : ∀ acc, ∃ a ∈ l, ∃ e, p a = .error e ∧ l.filterAuxM p acc = .error e := by
      induction l with
      | nil => simp at hall
      | cons a l ih =>
        intro acc
        cases ha : p a with
        | error e =>
          refine ⟨a, List.mem_cons_self, e, ha, ?_⟩
          rw [List.filterAuxM, ha, error_bind]
        | ok b =>
          have hrest : ¬ ∀ a ∈ l, ∃ b, p a = .ok b := by
            intro hrest
            apply hall
            intro c hc
            rcases List.mem_cons.mp hc with rfl | hc
            · exact ⟨b, ha⟩
            · exact hrest c hc
          obtain ⟨c, hc, e, he, hstop⟩ := ih hrest (bif b then a :: acc else acc)
          refine ⟨c, List.mem_cons_of_mem a hc, e, he, ?_⟩
          rw [List.filterAuxM, ha, ok_bind]
          exact hstop
    obtain ⟨a, ha, e, he, hstop⟩ := haux []
    exact ⟨a, ha, e, he, by rw [List.filterM, hstop, error_bind]⟩

theorem of_mem_filterM {p : α → Outcome Bool} {l out : List α} (h : l.filterM p = .ok out) {a : α}
    (ha : a ∈ out) : a ∈ l ∧ p a = .ok true := by
  rcases filterM_cases p l with ⟨q, hq, hok⟩ | ⟨b, -, e, -, hstop⟩
  · obtain rfl := Except.ok.inj (hok.symm.trans h)
    obtain ⟨hmem, hpassed⟩ := List.mem_filter.mp ha
    exact ⟨hmem, hpassed ▸ hq a hmem⟩
  · rw [hstop] at h
    cases h

/-- A filter of related items passes related items, if the tests of these have the same answer. -/
theorem exists_filterM {R : α → β → Prop} {p : α → Outcome Bool} {q : β → Outcome Bool}
    (hpq : ∀ a b t, R a b → p a = .ok t → q b = .ok t) {l out : List α} {l' : List β}
    (h : List.Forall₂ R l l') (hout : l.filterM p = .ok out) :
    ∃ out', l'.filterM q = .ok out' ∧ List.Forall₂ R out out' := by
  obtain ⟨f, hf, hok⟩ | ⟨b, -, e, -, hstop⟩ := filterM_cases p l
  · obtain rfl := Except.ok.inj (hok.symm.trans hout)
    let passes := fun b => (q b).toOption.getD false
    have hrelated : (∀ b ∈ l', q b = .ok (passes b)) ∧
        List.Forall₂ R (l.filter f) (l'.filter passes) := by
      clear hok hout
      induction h with
      | nil => exact ⟨nofun, .nil⟩
      | @cons a b l l' hab _ ih =>
        have hb := hpq a b _ hab (hf a List.mem_cons_self)
        have hpasses : passes b = f a := by simp [passes, hb, Except.toOption]
        obtain ⟨hrest, hkept⟩ := ih fun a ha => hf a (List.mem_cons_of_mem _ ha)
        refine ⟨List.forall_mem_cons.mpr ⟨hpasses ▸ hb, hrest⟩, ?_⟩
        rw [List.filter_cons, List.filter_cons, hpasses]
        split
        · exact .cons hab hkept
        · exact hkept
    exact ⟨_, filterM_eq_ok hrelated.1, hrelated.2⟩
  · rw [hstop] at hout
    cases hout

theorem mapM_eq_ok {f : α → Outcome β} {g : α → β} {l : List α}
    (h : ∀ a ∈ l, f a = .ok (g a)) : l.mapM f = .ok (l.map g) := by
  induction l with
  | nil => rfl
  | cons a l ih =>
    have ih := ih fun b hb => h b (List.mem_cons_of_mem a hb)
    rw [List.mapM_cons, h a List.mem_cons_self, ok_bind, ih]
    rfl

theorem exists_of_mem_mapM {f : α → Outcome β} {l : List α} {out : List β} {b : β}
    (h : l.mapM f = .ok out) (hb : b ∈ out) : ∃ a ∈ l, f a = .ok b := by
  induction l generalizing out with
  | nil =>
    obtain rfl := Except.ok.inj h
    cases hb
  | cons a l ih =>
    rw [List.mapM_cons] at h
    obtain ⟨first, hfirst, h⟩ := bind_eq_ok.mp h
    obtain ⟨rest, hrest, h⟩ := bind_eq_ok.mp h
    obtain rfl := Except.ok.inj h
    rcases List.mem_cons.mp hb with rfl | hb
    · exact ⟨a, List.mem_cons_self, hfirst⟩
    · obtain ⟨c, hc, hcb⟩ := ih hrest hb
      exact ⟨c, List.mem_cons_of_mem a hc, hcb⟩

end Outcome

@[simp] theorem Fault.defect_bind {α β : Type} (graph : Option String) (d : Defect)
    (f : α → Outcome β) : ((Fault.defect graph d : Outcome α) >>= f) = Fault.defect graph d := rfl

@[simp] theorem Fault.defect_ne_ok {α : Type} (graph : Option String) (d : Defect) (a : α) :
    (Fault.defect graph d : Outcome α) ≠ .ok a := by
  simp [Fault.defect]

@[simp] theorem Fault.guarded_eq_ok_iff {α : Type} {p : Prop} [Decidable p]
    {graph : Option String} {d : Defect} {a b : α} :
    (if p then .ok a else Fault.defect graph d : Outcome α) = .ok b ↔ p ∧ a = b := by
  by_cases h : p <;> simp [h]

end TradingRules
