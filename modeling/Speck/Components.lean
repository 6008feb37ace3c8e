import Mathlib.Data.List.Nodup
import Mathlib.Logic.Relation

/-!
# Components of a relation

Two vertices are in one strongly connected component when they reach each other (`Mutual`). Taken
in the reverse of a finishing order of a depth-first search (`FinishOrder`), the first vertex of
each component is reached only from its component and from earlier ones
(`FinishOrder.mutual_iff`), which is what makes a second pass against the edges stop at the
components.
-/

namespace Speck

open Relation

variable {α : Type*}

/-- Two vertices reach each other. -/
def Mutual (r : α → α → Prop) (a b : α) : Prop := ReflTransGen r a b ∧ ReflTransGen r b a

namespace Mutual

variable {r : α → α → Prop} {a b c : α}

theorem refl (a : α) : Mutual r a a := ⟨.refl, .refl⟩

theorem symm (h : Mutual r a b) : Mutual r b a := ⟨h.2, h.1⟩

theorem trans (h : Mutual r a b) (h' : Mutual r b c) : Mutual r a c :=
  ⟨h.1.trans h'.1, h'.2.trans h.2⟩

end Mutual

/-- A vertex is on a cycle when it has an edge to itself or is not alone in its component. -/
theorem transGen_self_iff {r : α → α → Prop} {a : α} :
    TransGen r a a ↔ r a a ∨ ∃ b, b ≠ a ∧ Mutual r a b := by
  constructor
  · intro h
    obtain ⟨b, hab, hba⟩ := TransGen.head'_iff.mp h
    by_cases heq : b = a
    · exact .inl (heq ▸ hab)
    · exact .inr ⟨b, heq, .single hab, hba⟩
  · rintro (h | ⟨b, hne, hab, hba⟩)
    · exact .single h
    · rcases reflTransGen_iff_eq_or_transGen.mp hab with heq | htrans
      · exact absurd heq hne
      · exact htrans.trans_left hba

/-- All vertices, the last finished first : what a vertex reaches comes after it, unless a vertex
of its component comes before it. -/
structure FinishOrder (r : α → α → Prop) (order : List α) : Prop where
  nodup : order.Nodup
  complete : ∀ a, a ∈ order
  after : ∀ {before a later}, order = before ++ a :: later → ∀ {b}, ReflTransGen r a b →
    b ∈ later ∨ b = a ∨ ∃ c ∈ before, Mutual r a c

/-- The first member of a list with a property. -/
theorem exists_first {p : α → Prop} {as : List α} (h : ∃ a ∈ as, p a) :
    ∃ before a later, as = before ++ a :: later ∧ p a ∧ ∀ b ∈ before, ¬p b := by
  induction as with
  | nil =>
    obtain ⟨a, ha, -⟩ := h
    cases ha
  | cons a as ih =>
    by_cases ha : p a
    · exact ⟨[], a, as, rfl, ha, nofun⟩
    · obtain ⟨b, hb, hp⟩ := h
      rcases List.mem_cons.mp hb with rfl | hb
      · exact absurd hp ha
      · obtain ⟨before, c, later, rfl, hc, hbefore⟩ := ih ⟨b, hb, hp⟩
        exact ⟨a :: before, c, later, rfl, hc, List.forall_mem_cons.mpr ⟨ha, hbefore⟩⟩

/-- Of the vertices outside the earlier components, those that reach the next vertex are its
component. -/
theorem FinishOrder.mutual_iff {r : α → α → Prop} {order before later : List α} {root a : α}
    (h : FinishOrder r order) (horder : order = before ++ root :: later)
    (ha : ∀ b ∈ before, ¬Mutual r b a) : ReflTransGen r a root ↔ Mutual r root a := by
  refine ⟨fun hroot => ?_, fun hmutual => hmutual.2⟩
  -- the first vertex of the component of `a` is `root` itself, or comes after it
  obtain ⟨front, first, back, hsplit, hfirst, hfront⟩ :=
    exists_first (p := fun b => Mutual r b a) ⟨a, h.complete a, .refl a⟩
  have hreach : ReflTransGen r first root := hfirst.1.trans hroot
  have hlist := horder.symm.trans hsplit
  have hmem : root ∉ front := by
    intro hin
    have hnodup := h.nodup
    rw [hsplit, List.nodup_append] at hnodup
    rcases h.after hsplit hreach with hback | rfl | ⟨c, hc, hmutual⟩
    · exact hnodup.2.2 root hin root (List.mem_cons_of_mem _ hback) rfl
    · exact hnodup.2.2 root hin root List.mem_cons_self rfl
    · exact hfront c hc (hmutual.symm.trans hfirst)
  rcases List.append_eq_append_iff.mp hlist with ⟨rest, hrest, hcons⟩ | ⟨rest, hrest, hcons⟩
  · cases rest with
    | nil =>
      obtain ⟨rfl, -⟩ := List.cons.inj hcons
      exact hfirst
    | cons b rest =>
      obtain ⟨rfl, -⟩ := List.cons.inj hcons
      exact absurd (hrest ▸ List.mem_append_right _ List.mem_cons_self) hmem
  · cases rest with
    | nil =>
      obtain ⟨rfl, -⟩ := List.cons.inj hcons
      exact hfirst
    | cons b rest =>
      obtain ⟨rfl, -⟩ := List.cons.inj hcons
      exact absurd hfirst (ha _ (hrest ▸ List.mem_append_right _ List.mem_cons_self))

end Speck
