import Mathlib.Tactic

/-!
# Rewriting trees from the top

A tree is rewritten from the top down: at every node an action says whether the node is kept as it
is, is replaced, or is descended into, and the mode in which the children are rewritten.  An action
may also fail.

`Rewrites` is the result of rewriting a tree, `Visits` says which nodes are looked at on the way,
and in which mode.  A position in a tree is a list of child indices.  Rewriting succeeds exactly
when no action at a visited node fails (`exists_rewrites_iff`), changes nothing exactly when no
visited node is replaced by another one (`rewrites_self_iff`), and a visited node is found at its
position, rewritten (`subtree_of_visits`).
-/

namespace TopDown

/-- How a type is read as a type of trees with labelled children. -/
structure Shape (L T : Type) where
  children : T → List (L × T)
  /-- The tree with other children under the same labels. -/
  rebuild : T → List T → T
  rebuild_children : ∀ t, rebuild t ((children t).map Prod.snd) = t
  children_rebuild : ∀ t cs, cs.length = (children t).length →
    (children (rebuild t cs)).map Prod.snd = cs
  wellFounded : WellFounded fun c t => ∃ l, (l, c) ∈ children t

/-- What is done with a node; `descend` has the mode for the child with a label. -/
inductive Action (L M T : Type) where
  | keep
  | replace (t : T)
  | descend (mode : L → M)

variable {L M T ε : Type} (S : Shape L T) (act : M → T → Except ε (Action L M T))

namespace Shape

/-- The subtree at a position. -/
def subtree : T → List ℕ → Option T
  | t, [] => some t
  | t, i :: path => (S.children t)[i]?.bind fun c => subtree c.2 path

theorem subtree_cons {t c : T} {l : L} {i : ℕ} (h : (S.children t)[i]? = some (l, c))
    (path : List ℕ) : S.subtree t (i :: path) = S.subtree c path := by
  rw [subtree, h]
  rfl

theorem subtree_append (t : T) (p q : List ℕ) :
    S.subtree t (p ++ q) = (S.subtree t p).bind fun c => S.subtree c q := by
  induction p generalizing t with
  | nil => rfl
  | cons i p ih =>
    show ((S.children t)[i]?.bind fun c => S.subtree c.2 (p ++ q)) =
      ((S.children t)[i]?.bind fun c => S.subtree c.2 p).bind fun c => S.subtree c q
    rw [Option.bind_assoc]
    exact congrArg _ (funext fun c => ih c.2)

/-- Induction over trees: a tree is settled once its children are. -/
theorem induction {P : T → Prop} (h : ∀ t, (∀ l c, (l, c) ∈ S.children t → P c) → P t) (t : T) :
    P t := by
  induction t using S.wellFounded.induction with
  | _ t ih => exact h t fun l c hc => ih c ⟨l, hc⟩

end Shape

/-- Rewriting the tree in the mode gives the other tree. -/
inductive Rewrites : M → T → T → Prop where
  | keep {m : M} {t : T} (h : act m t = .ok .keep) : Rewrites m t t
  | replace {m : M} {t t' : T} (h : act m t = .ok (.replace t')) : Rewrites m t t'
  | descend {m : M} {t : T} {mode : L → M} {cs : List T} (h : act m t = .ok (.descend mode))
      (hlength : cs.length = (S.children t).length)
      (hcs : ∀ (i : ℕ) l c c', (S.children t)[i]? = some (l, c) → cs[i]? = some c' →
        Rewrites (mode l) c c') :
      Rewrites m t (S.rebuild t cs)

/-- Rewriting the tree in a mode looks at the node at the position in the other mode. -/
inductive Visits : M → T → List ℕ → M → T → Prop where
  | here (m : M) (t : T) : Visits m t [] m t
  | child {m m' : M} {t t' c : T} {mode : L → M} {l : L} {i : ℕ} {path : List ℕ}
      (h : act m t = .ok (.descend mode)) (hc : (S.children t)[i]? = some (l, c))
      (hvisits : Visits (mode l) c path m' t') : Visits m t (i :: path) m' t'

variable {S act} {m m' : M} {t t' r r' c : T} {mode : L → M} {path : List ℕ}

theorem rewrites_iff_of_keep (h : act m t = .ok .keep) : Rewrites S act m t r ↔ r = t := by
  constructor
  · intro hr
    cases hr with
    | keep _ => rfl
    | replace h' => cases h.symm.trans h'
    | descend h' _ _ => cases h.symm.trans h'
  · rintro rfl
    exact .keep h

theorem rewrites_iff_of_replace (h : act m t = .ok (.replace t')) :
    Rewrites S act m t r ↔ r = t' := by
  constructor
  · intro hr
    cases hr with
    | keep h' => cases h.symm.trans h'
    | replace h' =>
      obtain ⟨⟩ := h.symm.trans h'
      rfl
    | descend h' _ _ => cases h.symm.trans h'
  · rintro rfl
    exact .replace h

theorem rewrites_iff_of_descend (h : act m t = .ok (.descend mode)) :
    Rewrites S act m t r ↔ ∃ cs, r = S.rebuild t cs ∧ cs.length = (S.children t).length ∧
      ∀ (i : ℕ) l c c', (S.children t)[i]? = some (l, c) → cs[i]? = some c' →
        Rewrites S act (mode l) c c' := by
  constructor
  · intro hr
    cases hr with
    | keep h' => cases h.symm.trans h'
    | replace h' => cases h.symm.trans h'
    | descend h' hlength hcs =>
      obtain ⟨⟩ := h.symm.trans h'
      exact ⟨_, rfl, hlength, hcs⟩
  · rintro ⟨cs, rfl, hlength, hcs⟩
    exact .descend h hlength hcs

theorem forall₂_iff_getElem? {α β : Type} {R : α → β → Prop} {l : List α} {l' : List β} :
    List.Forall₂ R l l' ↔ l'.length = l.length ∧
      ∀ (i : ℕ) a b, l[i]? = some a → l'[i]? = some b → R a b := by
  constructor
  · intro h
    refine ⟨h.length_eq.symm, ?_⟩
    induction h with
    | nil => simp
    | cons hab _ ih =>
      intro i a b ha hb
      cases i with
      | zero =>
        obtain rfl := Option.some.inj ha
        obtain rfl := Option.some.inj hb
        exact hab
      | succ i => exact ih i a b ha hb
  · rintro ⟨hlength, hR⟩
    induction l generalizing l' with
    | nil =>
      obtain rfl := List.length_eq_zero_iff.1 hlength
      exact .nil
    | cons a l ih =>
      cases l' with
      | nil => cases hlength
      | cons b l' =>
        refine .cons (hR 0 a b rfl rfl) (ih (Nat.succ.inj hlength) fun i a' b' ha hb => ?_)
        exact hR (i + 1) a' b' ha hb

/-- A node that is descended into is rebuilt from its rewritten children. -/
theorem rewrites_iff_forall₂ (h : act m t = .ok (.descend mode)) :
    Rewrites S act m t r ↔ ∃ cs, r = S.rebuild t cs ∧
      List.Forall₂ (fun c c' => Rewrites S act (mode c.1) c.2 c') (S.children t) cs := by
  rw [rewrites_iff_of_descend h]
  refine exists_congr fun cs => and_congr_right fun _ => ?_
  rw [forall₂_iff_getElem?]
  exact and_congr_right fun _ => forall_congr' fun i =>
    ⟨fun hcs a c' => hcs a.1 a.2 c', fun hcs l c c' => hcs (l, c) c'⟩

theorem exists_act_of_rewrites (h : Rewrites S act m t r) : ∃ a, act m t = .ok a := by
  cases h with
  | keep h => exact ⟨_, h⟩
  | replace h => exact ⟨_, h⟩
  | descend h _ _ => exact ⟨_, h⟩

/-- The children of a tree and of the tree they are rewritten to. -/
theorem children_of_descend (h : act m t = .ok (.descend mode)) (hr : Rewrites S act m t r) {i : ℕ}
    {l : L} (hc : (S.children t)[i]? = some (l, c)) :
    ∃ l' c', (S.children r)[i]? = some (l', c') ∧ Rewrites S act (mode l) c c' := by
  obtain ⟨cs, rfl, hlength, hcs⟩ := (rewrites_iff_of_descend h).1 hr
  obtain ⟨hi, -⟩ := List.getElem?_eq_some_iff.1 hc
  have hsnd := S.children_rebuild t cs hlength
  have hi' : i < (S.children (S.rebuild t cs)).length := by
    rw [← List.length_map (f := Prod.snd), hsnd, hlength]
    exact hi
  obtain ⟨⟨l', c'⟩, hc'⟩ : ∃ x, (S.children (S.rebuild t cs))[i]? = some x :=
    ⟨_, List.getElem?_eq_getElem hi'⟩
  refine ⟨l', c', hc', hcs i l c c' hc ?_⟩
  rw [← hsnd, List.getElem?_map, hc']
  rfl

/-- A visited node is found at its position, rewritten. -/
theorem subtree_of_visits (hv : Visits S act m t path m' t') (hr : Rewrites S act m t r) :
    ∃ r', S.subtree r path = some r' ∧ Rewrites S act m' t' r' := by
  induction hv generalizing r with
  | here m t => exact ⟨r, rfl, hr⟩
  | child h hc _ ih =>
    obtain ⟨l', c', hc', hr'⟩ := children_of_descend h hr hc
    rw [S.subtree_cons hc']
    exact ih hr'

/-- A visited node is a node of the tree. -/
theorem subtree_self_of_visits (hv : Visits S act m t path m' t') :
    S.subtree t path = some t' := by
  induction hv with
  | here m t => rfl
  | child _ hc _ ih => rw [S.subtree_cons hc, ih]

/-- What the actions hand down holds at every visited node. -/
theorem forall_of_visits {P : M → T → Prop}
    (hstep : ∀ m t mode l c, act m t = .ok (.descend mode) → (l, c) ∈ S.children t → P m t →
      P (mode l) c)
    (hv : Visits S act m t path m' t') (h : P m t) : P m' t' := by
  induction hv with
  | here m t => exact h
  | child hact hc _ ih => exact ih (hstep _ _ _ _ _ hact (List.mem_of_getElem? hc) h)

/-- A position of the tree is visited, or is inside a visited node that is not descended into. -/
theorem exists_visits_of_subtree (h : S.subtree t path = some t') :
    ∃ p q m' c, path = p ++ q ∧ Visits S act m t p m' c ∧ S.subtree c q = some t' ∧
      (q = [] ∨ ∀ mode, act m' c ≠ .ok (.descend mode)) := by
  induction path generalizing m t with
  | nil => exact ⟨[], [], m, t, rfl, .here m t, h, Or.inl rfl⟩
  | cons i path ih =>
    by_cases hact : ∃ mode, act m t = .ok (.descend mode)
    · obtain ⟨mode, hact⟩ := hact
      obtain ⟨⟨l, c⟩, hc, hsub⟩ := Option.bind_eq_some_iff.1 h
      obtain ⟨p, q, m', c', rfl, hv, hq⟩ := ih (m := mode l) hsub
      exact ⟨i :: p, q, m', c', rfl, .child hact hc hv, hq⟩
    · exact ⟨[], i :: path, m, t, rfl, .here m t, h, Or.inr fun mode he => hact ⟨mode, he⟩⟩

/-- The result of rewriting is left alone by rewriting, if what replaces a node is kept, and a node
with other children is descended into as before. -/
theorem rewrites_self_of_rewrites
    (hreplace : ∀ m t t', act m t = .ok (.replace t') → act m t' = .ok .keep)
    (hdescend : ∀ m t mode cs, act m t = .ok (.descend mode) →
      cs.length = (S.children t).length → act m (S.rebuild t cs) = .ok (.descend mode) ∧
        (S.children (S.rebuild t cs)).map Prod.fst = (S.children t).map Prod.fst)
    (h : Rewrites S act m t r) : Rewrites S act m r r := by
  induction h with
  | keep h => exact .keep h
  | replace h => exact .keep (hreplace _ _ _ h)
  | @descend m t mode cs h hlength hcs ih =>
    obtain ⟨hact, hlabels⟩ := hdescend m t mode cs h hlength
    have hvalues := S.children_rebuild t cs hlength
    rw [rewrites_iff_of_descend hact]
    refine ⟨cs, ?_, ?_, ?_⟩
    · have hself := S.rebuild_children (S.rebuild t cs)
      rw [hvalues] at hself
      exact hself.symm
    · have hlen := congrArg List.length hvalues
      rw [List.length_map] at hlen
      exact hlen.symm
    · intro i l c c' hc hc'
      obtain rfl : c = c' := by
        have hi := congrArg (fun xs : List T => xs[i]?) hvalues
        rw [List.getElem?_map, hc, hc'] at hi
        exact Option.some.inj hi
      -- the child of the first tree at this place has the same label
      have hl := congrArg (fun xs : List L => xs[i]?) hlabels
      simp only [List.getElem?_map, hc, Option.map_some] at hl
      obtain ⟨⟨l', c₀⟩, hc₀, hl'⟩ := Option.map_eq_some_iff.1 hl.symm
      obtain rfl : l' = l := hl'
      exact ih i l' c₀ c hc₀ hc'

/-- Rewriting succeeds when no action at a visited node fails. -/
theorem exists_rewrites_iff : (∃ r, Rewrites S act m t r) ↔
    ∀ path m' t', Visits S act m t path m' t' → ∃ a, act m' t' = .ok a := by
  constructor
  · rintro ⟨r, hr⟩ path m' t' hv
    obtain ⟨r', -, hr'⟩ := subtree_of_visits hv hr
    exact exists_act_of_rewrites hr'
  · intro h
    induction t using S.induction generalizing m with
    | h t ih =>
      obtain ⟨a, ha⟩ := h [] m t (.here m t)
      cases a with
      | keep => exact ⟨t, .keep ha⟩
      | replace t' => exact ⟨t', .replace ha⟩
      | descend mode =>
        have hchild : ∀ c ∈ S.children t, ∃ c', Rewrites S act (mode c.1) c.2 c' := by
          rintro ⟨l, c⟩ hc
          obtain ⟨i, hi⟩ := List.mem_iff_getElem?.1 hc
          exact ih l c hc fun path m' t' hv => h (i :: path) m' t' (.child ha hi hv)
        have : Nonempty T := ⟨t⟩
        choose! f hf using hchild
        refine ⟨_, (rewrites_iff_of_descend ha).2
          ⟨(S.children t).map f, rfl, List.length_map _, ?_⟩⟩
        intro i l c c' hc hc'
        rw [List.getElem?_map, hc] at hc'
        obtain rfl := Option.some.inj hc'
        exact hf (l, c) (List.mem_of_getElem? hc)

/-- Rewriting changes nothing when no visited node is replaced by another one. -/
theorem rewrites_self_iff : Rewrites S act m t t ↔
    ∀ path m' t', Visits S act m t path m' t' →
      (∃ a, act m' t' = .ok a) ∧ ∀ r, act m' t' = .ok (.replace r) → r = t' := by
  constructor
  · intro hr path m' t' hv
    obtain ⟨r', hr', hrewrites⟩ := subtree_of_visits hv hr
    rw [subtree_self_of_visits hv] at hr'
    obtain rfl := Option.some.inj hr'
    refine ⟨exists_act_of_rewrites hrewrites, fun r hreplace => ?_⟩
    exact ((rewrites_iff_of_replace hreplace).1 hrewrites).symm
  · intro h
    induction t using S.induction generalizing m with
    | h t ih =>
      obtain ⟨⟨a, ha⟩, hself⟩ := h [] m t (.here m t)
      cases a with
      | keep => exact .keep ha
      | replace r =>
        obtain rfl := hself r ha
        exact .replace ha
      | descend mode =>
        rw [rewrites_iff_of_descend ha]
        refine ⟨(S.children t).map Prod.snd, (S.rebuild_children t).symm, List.length_map _, ?_⟩
        intro i l c c' hc hc'
        rw [List.getElem?_map, hc] at hc'
        obtain rfl := Option.some.inj hc'
        refine ih l c (List.mem_of_getElem? hc) fun path m' t' hv => ?_
        exact h (i :: path) m' t' (.child ha hc hv)

end TopDown
