import Irena.Library.Markup

/-! # Listings

Elements whose children hold nothing: which tags the content of such an element lists, and a loop
over children as a fold over that list. -/

namespace Irena.Library.Markup

open Strings

variable {φ ι σ : Type}

/-- A fold over tags. -/
inductive Steps (child : σ → Tag → σ → Prop) : σ → List Tag → σ → Prop
  | nil {s} : Steps child s [] s
  | cons {s s' t tag tags} : child s tag s' → Steps child s' tags t → Steps child s (tag :: tags) t

/-- A slot that the children of one name fill, where no other child touches it and it is filled
once at most. -/
theorem Steps.slot {β : Type} {child : σ → Tag → σ → Prop} {s t : σ} {tags : List Tag}
    (h : Steps child s tags t) (name : Text) (slot : σ → Option β) (Says : Tag → β → Prop)
    (hother : ∀ {s tag s'}, child s tag s' → tag.name ≠ name → slot s' = slot s)
    (hnamed : ∀ {s tag s'}, child s tag s' → tag.name = name →
      slot s = none ∧ ∃ v, Says tag v ∧ slot s' = some v) :
    (tags.filter (fun tag => tag.name = name) = [] ∧ slot t = slot s) ∨
      slot s = none ∧ ∃ tag v, tags.filter (fun tag => tag.name = name) = [tag] ∧ Says tag v ∧
        slot t = some v := by
  induction h with
  | nil => exact .inl ⟨rfl, rfl⟩
  | @cons s s' t tag tags hchild _ ih =>
    by_cases hname : tag.name = name
    · obtain ⟨hnone, v, hsays, hv⟩ := hnamed hchild hname
      rcases ih with ⟨hnil, hslot⟩ | ⟨hnone', -⟩
      · refine .inr ⟨hnone, tag, v, ?_, hsays, hslot.trans hv⟩
        rw [List.filter_cons_of_pos (by simpa using hname), hnil]
      · rw [hv] at hnone'
        cases hnone'
    · rw [List.filter_cons_of_neg (by simpa using hname), ← hother hchild hname]
      exact ih

variable [Scanner]

/-- Only text and comments, up to after the end tag. -/
inductive Hollow : Reader → Reader → Prop
  | close {r r' name} : scan r = some (.close name, r') → Hollow r r'
  | text {r r₁ r' t} : scan r = some (.text t, r₁) → Hollow r₁ r' → Hollow r r'
  | comment {r r₁ r' t} : scan r = some (.comment t, r₁) → Hollow r₁ r' → Hollow r r'

/-- The rest of a child behind its start tag or its empty-element tag. -/
def HollowRest (isEmpty : Bool) (r r' : Reader) : Prop := if isEmpty then r' = r else Hollow r r'

/-- The tags of the children of an element, up to after its end tag; text and comments stand
between them, and `Inside` is what a child may hold behind a start tag. -/
inductive Listing (Inside : Reader → Reader → Prop) : Reader → List Tag → Reader → Prop
  | close {r r' name} : scan r = some (.close name, r') → Listing Inside r [] r'
  | text {r r₁ r' t tags} : scan r = some (.text t, r₁) → Listing Inside r₁ tags r' →
      Listing Inside r tags r'
  | comment {r r₁ r' t tags} : scan r = some (.comment t, r₁) → Listing Inside r₁ tags r' →
      Listing Inside r tags r'
  | empty {r r₁ r' tag tags} : scan r = some (.empty tag, r₁) → Listing Inside r₁ tags r' →
      Listing Inside r (tag :: tags) r'
  | start {r r₁ r₂ r' tag tags} : scan r = some (.start tag, r₁) → Inside r₁ r₂ →
      Listing Inside r₂ tags r' → Listing Inside r (tag :: tags) r'

namespace Parse

variable [LawfulScanner] {reasons : Reasons φ} {onChild : σ → Tag → Bool → Parse φ ι σ}

/-- A loop that refuses every child reads a hollow element. -/
theorem run_children_hollow
    (hrefused : ∀ {s tag isEmpty r s' r'}, (onChild s tag isEmpty).run r ≠ (.ok s', r')) {s t : σ}
    {r r' : Reader} : (children reasons onChild s).run r = (.ok t, r') ↔ t = s ∧ Hollow r r' := by
  constructor
  · intro h
    induction hn : r.rest.length using Nat.strong_induction_on generalizing r with
    | _ n ih =>
      rw [run_children] at h
      rcases hscan : scan r with _ | ⟨e, r₁⟩
      · rw [hscan] at h
        cases h
      · rw [hscan] at h
        have hlt (he : e ≠ .eof) : r₁.rest.length < n := hn ▸ LawfulScanner.progress hscan he
        cases e with
        | text content =>
          obtain ⟨hs, hhollow⟩ := ih _ (hlt nofun) h rfl
          exact ⟨hs, .text hscan hhollow⟩
        | comment content =>
          obtain ⟨hs, hhollow⟩ := ih _ (hlt nofun) h rfl
          exact ⟨hs, .comment hscan hhollow⟩
        | empty tag =>
          obtain ⟨s', r₂, hchild, -⟩ := run_bind_ok.mp h
          exact absurd hchild hrefused
        | start tag =>
          obtain ⟨s', r₂, hchild, -⟩ := run_bind_ok.mp h
          exact absurd hchild hrefused
        | close name =>
          obtain ⟨rfl, rfl⟩ : s = t ∧ r₁ = r' := by simpa using h
          exact ⟨rfl, .close hscan⟩
        | _ => cases h
  · rintro ⟨rfl, h⟩
    induction h with
    | close hscan => rw [run_children, hscan]
    | text hscan _ ih => rw [run_children, hscan]; exact ih
    | comment hscan _ ih => rw [run_children, hscan]; exact ih

/-- A loop over hollow children folds over the tags of a listing. -/
theorem run_children_listing {child : σ → Tag → σ → Prop}
    (hchild : ∀ s tag isEmpty r s' r', (onChild s tag isEmpty).run r = (.ok s', r') ↔
      child s tag s' ∧ HollowRest isEmpty r r') {s t : σ} {r r' : Reader} :
    (children reasons onChild s).run r = (.ok t, r') ↔
      ∃ tags, Listing Hollow r tags r' ∧ Steps child s tags t := by
  constructor
  · intro h
    induction hn : r.rest.length using Nat.strong_induction_on generalizing r s with
    | _ n ih =>
      rw [run_children] at h
      rcases hscan : scan r with _ | ⟨e, r₁⟩
      · rw [hscan] at h
        cases h
      · rw [hscan] at h
        have hlt (he : e ≠ .eof) : r₁.rest.length < n := hn ▸ LawfulScanner.progress hscan he
        cases e with
        | text content =>
          obtain ⟨tags, hlisting, hsteps⟩ := ih _ (hlt nofun) h rfl
          exact ⟨tags, .text hscan hlisting, hsteps⟩
        | comment content =>
          obtain ⟨tags, hlisting, hsteps⟩ := ih _ (hlt nofun) h rfl
          exact ⟨tags, .comment hscan hlisting, hsteps⟩
        | empty tag =>
          obtain ⟨s', r₂, hrun, hloop⟩ := run_bind_ok.mp h
          obtain ⟨hstep, hrest⟩ := (hchild _ _ _ _ _ _).mp hrun
          obtain rfl : r₂ = r₁ := hrest
          obtain ⟨tags, hlisting, hsteps⟩ := ih _ (hlt nofun) hloop rfl
          exact ⟨tag :: tags, .empty hscan hlisting, .cons hstep hsteps⟩
        | start tag =>
          obtain ⟨s', r₂, hrun, hloop⟩ := run_bind_ok.mp h
          obtain ⟨hstep, hrest⟩ := (hchild _ _ _ _ _ _).mp hrun
          have hle : r₂.rest.length ≤ r₁.rest.length := by
            have hsuffix := ((onChild s tag false).isLocal inferInstance).suffix r₁
            rw [hrun] at hsuffix
            exact hsuffix.length_le
          obtain ⟨tags, hlisting, hsteps⟩ := ih _ (lt_of_le_of_lt hle (hlt nofun)) hloop rfl
          exact ⟨tag :: tags, .start hscan hrest hlisting, .cons hstep hsteps⟩
        | close name =>
          obtain ⟨rfl, rfl⟩ : s = t ∧ r₁ = r' := by simpa using h
          exact ⟨[], .close hscan, .nil⟩
        | _ => cases h
  · rintro ⟨tags, hlisting, hsteps⟩
    induction hlisting generalizing s with
    | close hscan =>
      cases hsteps
      rw [run_children, hscan]
    | text hscan _ ih =>
      rw [run_children, hscan]
      exact ih hsteps
    | comment hscan _ ih =>
      rw [run_children, hscan]
      exact ih hsteps
    | empty hscan _ ih =>
      cases hsteps with
      | cons hstep hsteps =>
        rw [run_children, hscan]
        exact run_bind_ok.mpr ⟨_, _, (hchild _ _ _ _ _ _).mpr ⟨hstep, rfl⟩, ih hsteps⟩
    | start hscan hhollow _ ih =>
      cases hsteps with
      | cons hstep hsteps =>
        rw [run_children, hscan]
        exact run_bind_ok.mpr ⟨_, _, (hchild _ _ _ _ _ _).mpr ⟨hstep, hhollow⟩, ih hsteps⟩

end Parse

end Irena.Library.Markup
