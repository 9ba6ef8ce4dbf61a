import Mathlib.Data.List.Forall2

/-!
# Lists that correspond

What is known of two lists whose elements correspond one by one.
-/

namespace DecimalScript

variable {α β γ : Type} {R : α → β → Prop} {as : List α} {bs : List β}

theorem exists_of_forall₂ (h : List.Forall₂ R as bs) {a : α} (ha : a ∈ as) : ∃ b ∈ bs, R a b := by
  induction h with
  | nil => cases ha
  | cons hab _ ih =>
    rcases List.mem_cons.mp ha with rfl | ha
    · exact ⟨_, List.mem_cons_self, hab⟩
    · obtain ⟨b, hb, hR⟩ := ih ha
      exact ⟨b, List.mem_cons_of_mem _ hb, hR⟩

theorem exists_of_forall₂_right (h : List.Forall₂ R as bs) {b : β} (hb : b ∈ bs) :
    ∃ a ∈ as, R a b :=
  exists_of_forall₂ (List.Forall₂.flip h) hb

/-- What holds of all of the second list may be used to change the relation. -/
theorem forall₂_of_mem {R' : α → β → Prop} {P : β → Prop} (h : List.Forall₂ R as bs)
    (hP : ∀ b ∈ bs, P b) (himp : ∀ a b, R a b → P b → R' a b) : List.Forall₂ R' as bs := by
  induction h with
  | nil => exact .nil
  | cons hfirst _ ih =>
    obtain ⟨hb, hbs⟩ := List.forall_mem_cons.mp hP
    exact .cons (himp _ _ hfirst hb) (ih hbs)

/-- Functions that agree on counterparts agree on the lists. -/
theorem map_eq_map_of_forall₂ {f : α → γ} {g : β → γ} (h : List.Forall₂ R as bs)
    (hR : ∀ a b, R a b → g b = f a) : bs.map g = as.map f := by
  induction h with
  | nil => rfl
  | cons hfirst _ ih => rw [List.map_cons, List.map_cons, hR _ _ hfirst, ih]

end DecimalScript
