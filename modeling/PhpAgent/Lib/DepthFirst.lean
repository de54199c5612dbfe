import PhpAgent.Lib.Forest

/-! Depth-first exploration of a graph in which nodes may be shared and may lie on cycles: the forest of
the nodes that are found, each where it is found first. -/
namespace PhpAgent.Forest

variable {α : Type} {kids : α → Option (List α)} {seen : Set α} {ps : List α} {f : Forest α}

/-- `f` is what is found from the nodes `ps`, one after the other, if those of `seen` are passed over. -/
inductive Explores (kids : α → Option (List α)) : Set α → List α → Forest α → Prop
  | nil (seen : Set α) : Explores kids seen [] nil
  | skip {seen : Set α} {p : α} {ps : List α} {f : Forest α} : p ∈ seen → Explores kids seen ps f →
      Explores kids seen (p :: ps) f
  | node {seen : Set α} {p : α} {ks ps : List α} {f g : Forest α} : p ∉ seen → kids p = some ks →
      Explores kids (insert p seen) ks f →
      Explores kids (insert p seen ∪ {a | a ∈ f.toList}) ps g →
      Explores kids seen (p :: ps) (node p f g)

/-- Where no node has two places, all that is below the nodes is found. -/
theorem Spans.explores (h : Spans kids ps f) (hnd : f.toList.Nodup) (hseen : ∀ a ∈ f.toList, a ∉ seen) :
    Explores kids seen ps f := by
  induction h generalizing seen with
  | nil => exact .nil seen
  | node hp _ _ ihk ihr =>
    obtain ⟨hnot,hnd⟩ := List.nodup_cons.mp hnd
    rw [List.mem_append,not_or] at hnot
    obtain ⟨hndk,hndr,hapart⟩ := List.nodup_append.mp hnd
    have hrest : ∀ a ∈ _ ++ _, a ∉ seen := fun a ha => hseen a (List.mem_cons_of_mem _ ha)
    refine .node (hseen _ List.mem_cons_self) hp (ihk hndk ?_) (ihr hndr ?_)
    · rintro a ha (rfl | ha')
      · exact hnot.1 ha
      · exact hrest a (List.mem_append_left _ ha) ha'
    · rintro a ha ((rfl | ha') | ha')
      · exact hnot.2 ha
      · exact hrest a (List.mem_append_right _ ha) ha'
      · exact hapart a ha' a ha rfl

/-- There is an edge from a node to each of its children. -/
def Edge (kids : α → Option (List α)) (a c : α) : Prop := ∃ ks, kids a = some ks ∧ c ∈ ks

namespace Explores

lemma notMem_seen (h : Explores kids seen ps f) {a : α} (ha : a ∈ f.toList) : a ∉ seen := by
  induction h with
  | nil seen => cases ha
  | skip _ _ ih => exact ih ha
  | node hp _ _ _ ihk ihr =>
    rw [toList_node,List.mem_cons,List.mem_append] at ha
    obtain rfl | ha | ha := ha
    · exact hp
    · exact fun hseen => ihk ha (Set.mem_insert_of_mem _ hseen)
    · exact fun hseen => ihr ha (.inl (Set.mem_insert_of_mem _ hseen))

lemma not_spans (h : Explores kids seen ps f) {p : α} (hp : p ∈ seen) : ¬ Spans kids (p :: ps) f := by
  rintro (_ | _)
  exact h.notMem_seen List.mem_cons_self hp

lemma nodup (h : Explores kids seen ps f) : f.toList.Nodup := by
  induction h with
  | nil seen => exact List.nodup_nil
  | skip _ _ ih => exact ih
  | node _ _ hk hr ihk ihr =>
    apply List.nodup_cons.mpr
    constructor
    · rw [List.mem_append,not_or]
      constructor
      · exact fun hmem => hk.notMem_seen hmem (Set.mem_insert _ _)
      · exact fun hmem => hr.notMem_seen hmem (.inl (Set.mem_insert _ _))
    · apply List.nodup_append.mpr
      refine ⟨ihk,ihr,fun a ha b hb hab => ?_⟩
      subst hab
      exact hr.notMem_seen hb (.inr ha)

/-- What is not passed over is found. -/
theorem root_mem (h : Explores kids seen ps f) {p : α} (hp : p ∈ ps) : p ∈ seen ∨ p ∈ f.toList := by
  induction h with
  | nil seen => cases hp
  | skip hseen _ ih =>
    obtain rfl | hp := List.mem_cons.mp hp
    · exact .inl hseen
    · exact ih hp
  | node _ _ _ _ _ ihr =>
    rw [toList_node,List.mem_cons,List.mem_append]
    obtain rfl | hp := List.mem_cons.mp hp
    · exact .inr (.inl rfl)
    · obtain (hseen | hkids) | hrest := ihr hp
      · obtain rfl | hseen := hseen
        · exact .inr (.inl rfl)
        · exact .inl hseen
      · exact .inr (.inr (.inl hkids))
      · exact .inr (.inr (.inr hrest))

lemma kid_mem (h : Explores kids seen ps f) {a c : α} (ha : a ∈ f.toList) (hc : Edge kids a c) :
    c ∈ seen ∨ c ∈ f.toList := by
  induction h with
  | nil seen => cases ha
  | skip _ _ ih => exact ih ha
  | @node seen p ks ps f g _ hks hk hr ihk ihr =>
    rw [toList_node,List.mem_cons,List.mem_append] at ha ⊢
    have hplace : c ∈ insert p seen ∨ c ∈ f.toList ∨ c ∈ g.toList := by
      obtain rfl | ha | ha := ha
      · obtain ⟨ks',hks',hmem⟩ := hc
        rw [hks,Option.some_inj] at hks'
        subst hks'
        exact (hk.root_mem hmem).imp_right .inl
      · exact (ihk ha).imp_right .inl
      · obtain (hseen | hkids) | hrest := ihr ha
        · exact .inl hseen
        · exact .inr (.inl hkids)
        · exact .inr (.inr hrest)
    obtain (rfl | hseen) | hkids | hrest := hplace
    · exact .inr (.inl rfl)
    · exact .inl hseen
    · exact .inr (.inr (.inl hkids))
    · exact .inr (.inr (.inr hrest))

lemma reached (h : Explores kids seen ps f) {a : α} (ha : a ∈ f.toList) :
    ∃ p ∈ ps, Relation.ReflTransGen (Edge kids) p a := by
  induction h with
  | nil seen => cases ha
  | skip _ _ ih =>
    obtain ⟨p,hp,hreach⟩ := ih ha
    exact ⟨p,List.mem_cons_of_mem _ hp,hreach⟩
  | node _ hks _ _ ihk ihr =>
    rw [toList_node,List.mem_cons,List.mem_append] at ha
    obtain rfl | ha | ha := ha
    · exact ⟨a,List.mem_cons_self,.refl⟩
    · obtain ⟨c,hc,hreach⟩ := ihk ha
      exact ⟨_,List.mem_cons_self,.head ⟨_,hks,hc⟩ hreach⟩
    · obtain ⟨p,hp,hreach⟩ := ihr ha
      exact ⟨p,List.mem_cons_of_mem _ hp,hreach⟩

/-- If nothing is passed over, then what is found is what can be reached. -/
theorem mem_iff (h : Explores kids ∅ ps f) (a : α) :
    a ∈ f.toList ↔ ∃ p ∈ ps, Relation.ReflTransGen (Edge kids) p a := by
  constructor
  · exact h.reached
  · rintro ⟨p,hp,hreach⟩
    induction hreach with
    | refl => exact (h.root_mem hp).resolve_left (Set.notMem_empty p)
    | tail _ hedge ih => exact (h.kid_mem ih hedge).resolve_left (Set.notMem_empty _)

lemma congr {kids' : α → Option (List α)} (h : Explores kids seen ps f)
    (hsame : ∀ a ∈ f.toList, kids' a = kids a) : Explores kids' seen ps f := by
  induction h with
  | nil seen => exact .nil seen
  | skip hseen _ ih => exact .skip hseen (ih hsame)
  | node hp hks _ _ ihk ihr =>
    refine .node hp ((hsame _ List.mem_cons_self).trans hks) (ihk ?_) (ihr ?_)
    · exact fun a ha => hsame a (mem_kids ha)
    · exact fun a ha => hsame a (mem_rest ha)

end Explores

/-- A finite graph is explored no deeper than it has nodes that are not passed over. The induction is
on their number: below a node there is one less. -/
theorem exists_explores (S : Finset α) (hS : ∀ a ∈ S, ∃ ks, kids a = some ks ∧ ∀ c ∈ ks, c ∈ S) (n : ℕ)
    {seen : Set α} (hcard : ∀ T : Finset α, T ⊆ S → (∀ a ∈ T, a ∉ seen) → T.card ≤ n) {ps : List α}
    (hps : ∀ p ∈ ps, p ∈ S) : ∃ f, Explores kids seen ps f ∧ f.depth ≤ n := by
  classical
  induction n generalizing seen ps with
  | zero =>
    refine ⟨.nil,?_,Nat.zero_le _⟩
    induction ps with
    | nil => exact .nil seen
    | cons p ps ih =>
      refine .skip ?_ (ih fun q hq => hps q (List.mem_cons_of_mem _ hq))
      by_contra hp
      have hone := hcard {p} (by simpa using hps p List.mem_cons_self) (by simpa using hp)
      simp at hone
  | succ n ih =>
    induction ps generalizing seen with
    | nil => exact ⟨.nil,.nil seen,Nat.zero_le _⟩
    | cons p ps ihps =>
      have hrest : ∀ q ∈ ps, q ∈ S := fun q hq => hps q (List.mem_cons_of_mem _ hq)
      by_cases hp : p ∈ seen
      · obtain ⟨f,hf,hdepth⟩ := ihps hcard hrest
        exact ⟨f,.skip hp hf,hdepth⟩
      obtain ⟨ks,hks,hkids⟩ := hS p (hps p List.mem_cons_self)
      have hbelow : ∀ T : Finset α, T ⊆ S → (∀ a ∈ T, a ∉ insert p seen) → T.card ≤ n := by
        intro T hT hnot
        have hpT : p ∉ T := fun hmem => hnot p hmem (Set.mem_insert _ _)
        have hmore := hcard (insert p T)
          (Finset.insert_subset (hps p List.mem_cons_self) hT) (by
            intro a ha
            obtain rfl | ha := Finset.mem_insert.mp ha
            · exact hp
            · exact fun hseen => hnot a ha (Set.mem_insert_of_mem _ hseen))
        rw [Finset.card_insert_of_notMem hpT] at hmore
        omega
      obtain ⟨f,hf,hdf⟩ := ih hbelow hkids
      obtain ⟨g,hg,hdg⟩ := @ihps (insert p seen ∪ {a | a ∈ f.toList}) (by
        intro T hT hnot
        apply hcard T hT
        exact fun a ha hseen => hnot a ha (.inl (Set.mem_insert_of_mem _ hseen))) hrest
      exact ⟨.node p f g,.node hp hks hf hg,max_le (Nat.succ_le_succ hdf) hdg⟩

/-! ### Visits -/

/-- A node is entered, with a visit at its end announced or not, or it is left. -/
inductive Visit (α : Type)
  | enter (a : α) (announced : Bool)
  | leave (a : α)
deriving DecidableEq

/-- The visits to a forest: what is below a node comes between entering and leaving it. -/
def visits (announced : α → Bool) : Forest α → List (Visit α)
  | nil => []
  | node a kids rest => .enter a (announced a) :: (kids.visits announced ++
      (if announced a then [.leave a] else []) ++ rest.visits announced)

lemma visits_node (announced : α → Bool) (a : α) (kids rest : Forest α) :
    (node a kids rest).visits announced = .enter a (announced a) :: (kids.visits announced ++
      (if announced a then [.leave a] else []) ++ rest.visits announced) := rfl

/-- `b` was first found below `a`. -/
def Below : Forest α → α → α → Prop
  | nil, _, _ => False
  | node p kids rest, a, b => (a = p ∧ b ∈ kids.toList) ∨ kids.Below a b ∨ rest.Below a b

section Visits
variable {announced announced' : α → Bool}

lemma visits_congr (h : ∀ a ∈ f.toList, announced' a = announced a) :
    f.visits announced' = f.visits announced := by
  induction f with
  | nil => rfl
  | node p kids rest ihk ihr =>
    rw [visits_node,visits_node,h p List.mem_cons_self,
      ihk fun a ha => h a (mem_kids ha),
      ihr fun a ha => h a (mem_rest ha)]

lemma mem_toList_of_visit {v : Visit α} (hv : v ∈ f.visits announced) :
    ∃ a ∈ f.toList, v = .enter a (announced a) ∨ (v = .leave a ∧ announced a = true) := by
  induction f with
  | nil => cases hv
  | node p kids rest ihk ihr =>
    simp only [visits_node,List.mem_cons,List.mem_append] at hv
    obtain rfl | (hv | hv) | hv := hv
    · exact ⟨p,List.mem_cons_self,.inl rfl⟩
    · obtain ⟨a,ha,h⟩ := ihk hv
      exact ⟨a,mem_kids ha,h⟩
    · by_cases hann : announced p = true
      · rw [if_pos hann,List.mem_singleton] at hv
        exact ⟨p,List.mem_cons_self,.inr ⟨hv,hann⟩⟩
      · rw [if_neg hann] at hv
        cases hv
    · obtain ⟨a,ha,h⟩ := ihr hv
      exact ⟨a,mem_rest ha,h⟩

/-- Every visit happens at most once. -/
theorem visits_nodup (h : f.toList.Nodup) : (f.visits announced).Nodup := by
  induction f with
  | nil => exact List.nodup_nil
  | node p kids rest ihk ihr =>
    obtain ⟨hp,h⟩ := List.nodup_cons.mp h
    obtain ⟨hkids,hrest,hdisj⟩ := List.nodup_append.mp h
    have hnode : ∀ {v : Visit α} {g : Forest α}, v ∈ g.visits announced → p ∉ g.toList →
        v ≠ .enter p (announced p) ∧ v ≠ .leave p := by
      intro v g hv hnot
      obtain ⟨a,ha,hva⟩ := mem_toList_of_visit hv
      have hne : a ≠ p := fun heq => hnot (heq ▸ ha)
      obtain rfl | ⟨rfl,-⟩ := hva
      · exact ⟨fun heq => hne (Visit.enter.inj heq).1,nofun⟩
      · exact ⟨nofun,fun heq => hne (Visit.leave.inj heq)⟩
    have hpk : p ∉ kids.toList := fun hmem => hp (List.mem_append_left _ hmem)
    have hpr : p ∉ rest.toList := fun hmem => hp (List.mem_append_right _ hmem)
    have hlast : (if announced p then [Visit.leave p] else []).Nodup := by
      split_ifs <;> simp
    have hleave : ∀ {v : Visit α}, v ∈ (if announced p then [Visit.leave p] else []) →
        v = .leave p := by
      intro v hv
      split_ifs at hv
      · exact List.mem_singleton.mp hv
      · cases hv
    rw [visits_node,List.nodup_cons,List.nodup_append,List.nodup_append]
    refine ⟨?_,⟨ihk hkids,hlast,?_⟩,ihr hrest,?_⟩
    · simp only [List.mem_append,not_or]
      refine ⟨⟨fun hv => (hnode hv hpk).1 rfl,fun hv => ?_⟩,fun hv => (hnode hv hpr).1 rfl⟩
      cases hleave hv
    · intro v hv v' hv' heq
      exact (hnode hv hpk).2 (heq.trans (hleave hv'))
    · intro v hv v' hv' heq
      subst heq
      obtain hv | hv := List.mem_append.mp hv
      · obtain ⟨a,ha,hva⟩ := mem_toList_of_visit hv
        obtain ⟨b,hb,hvb⟩ := mem_toList_of_visit hv'
        have hab : a = b := by
          obtain rfl | ⟨rfl,-⟩ := hva
          · obtain heq | ⟨heq,-⟩ := hvb
            · exact (Visit.enter.inj heq).1
            · cases heq
          · obtain heq | ⟨heq,-⟩ := hvb
            · cases heq
            · exact Visit.leave.inj heq
        exact hdisj a ha b hb hab
      · exact (hnode hv' hpr).2 (hleave hv)

lemma enter_mem {a : α} (ha : a ∈ f.toList) : .enter a (announced a) ∈ f.visits announced := by
  induction f with
  | nil => cases ha
  | node p kids rest ihk ihr =>
    rw [visits_node,List.mem_cons,List.mem_append,List.mem_append]
    obtain rfl | ha := List.mem_cons.mp ha
    · exact .inl rfl
    · obtain ha | ha := List.mem_append.mp ha
      · exact .inr (.inl (.inl (ihk ha)))
      · exact .inr (.inr (ihr ha))

lemma leave_mem {a : α} (ha : a ∈ f.toList) (hann : announced a = true) :
    .leave a ∈ f.visits announced := by
  induction f with
  | nil => cases ha
  | node p kids rest ihk ihr =>
    rw [visits_node,List.mem_cons,List.mem_append,List.mem_append]
    obtain rfl | ha := List.mem_cons.mp ha
    · exact .inr (.inl (.inr (by rw [if_pos hann]; exact List.mem_singleton_self _)))
    · obtain ha | ha := List.mem_append.mp ha
      · exact .inr (.inl (.inl (ihk ha)))
      · exact .inr (.inr (ihr ha))

/-- A node is left after every visit to what was first found below it. -/
theorem leave_after {a b : α} (h : f.Below a b) (ha : announced a = true) :
    [.enter b (announced b),.leave a].Sublist (f.visits announced) ∧
      (announced b = true → [.leave b,.leave a].Sublist (f.visits announced)) := by
  induction f with
  | nil => cases h
  | node p kids rest ihk ihr =>
    rw [visits_node]
    obtain ⟨rfl,hb⟩ | h | h := h
    · have hpair : ∀ v ∈ kids.visits announced, [v,.leave a].Sublist
          (.enter a (announced a) :: (kids.visits announced ++
            (if announced a then [.leave a] else []) ++ rest.visits announced)) := by
        intro v hv
        rw [if_pos ha]
        apply List.Sublist.cons
        apply List.Sublist.trans _ (List.sublist_append_left _ _)
        exact (List.singleton_sublist.mpr hv).append (List.Sublist.refl [Visit.leave a])
      exact ⟨hpair _ (enter_mem hb),fun hann => hpair _ (leave_mem hb hann)⟩
    · have hin : (kids.visits announced).Sublist (.enter p (announced p) :: (kids.visits announced ++
          (if announced p then [.leave p] else []) ++ rest.visits announced)) := by
        apply List.Sublist.cons
        exact (List.sublist_append_left _ _).trans (List.sublist_append_left _ _)
      obtain ⟨henter,hleave⟩ := ihk h
      exact ⟨henter.trans hin,fun hann => (hleave hann).trans hin⟩
    · have hin : (rest.visits announced).Sublist (.enter p (announced p) :: (kids.visits announced ++
          (if announced p then [.leave p] else []) ++ rest.visits announced)) := by
        apply List.Sublist.cons
        exact List.sublist_append_right _ _
      obtain ⟨henter,hleave⟩ := ihr h
      exact ⟨henter.trans hin,fun hann => (hleave hann).trans hin⟩

end Visits
end PhpAgent.Forest
