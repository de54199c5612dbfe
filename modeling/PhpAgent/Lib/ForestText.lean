import PhpAgent.Lib.Forest
import PhpAgent.Lib.Json

/-! Forests written as nested JSON arrays. A node opens two arrays, one for itself and one for its
children, and closes them behind the children. -/
namespace PhpAgent
open Json

/-- The pieces with `sep` between them and `lead` in front of the first. -/
def joinWith (lead sep : List UInt8) : List (List UInt8) → List UInt8
  | [] => []
  | b :: bs => lead ++ b ++ joinWith sep sep bs

lemma joinWith_append (lead sep : List UInt8) (as bs : List (List UInt8)) :
    joinWith lead sep (as ++ bs) =
      joinWith lead sep as ++ joinWith (if as = [] then lead else sep) sep bs := by
  induction as generalizing lead with
  | nil => rfl
  | cons a as ih =>
    simp only [List.cons_append,joinWith,ih,List.append_assoc,reduceCtorEq,if_false]
    congr 3
    split <;> rfl

lemma joinWith_nil_nil (bs : List (List UInt8)) : joinWith [] [] bs = bs.flatten := by
  induction bs with
  | nil => rfl
  | cons b bs ih => rw [joinWith,ih,List.flatten_cons,List.nil_append]

lemma joinWith_nil (sep : List UInt8) (bs : List (List UInt8)) :
    joinWith [] sep bs = sep.intercalate bs := by
  induction bs with
  | nil => rfl
  | cons b bs ih =>
    cases bs with
    | nil => simp [joinWith]
    | cons c bs =>
      have hcons : sep.intercalate (b :: c :: bs) = b ++ sep ++ sep.intercalate (c :: bs) := by
        simp [List.intercalate]
      rw [hcons,← ih]
      simp [joinWith]

namespace Forest
variable {α σ : Type} {opening : α → σ → List UInt8 × σ}

/-- The texts of the trees, each with its children in an array. `opening` writes a node up to its
children and threads a state through the nodes in pre-order. -/
def texts (opening : α → σ → List UInt8 × σ) : Forest α → σ → List (List UInt8) × σ
  | nil, s => ([],s)
  | node a kids rest, s =>
    let head := opening a s
    let below := texts opening kids head.2
    let behind := texts opening rest below.2
    ((head.1 ++ [code ','].intercalate below.1 ++ [code ']',code ']']) :: behind.1,behind.2)

lemma texts_append (f g : Forest α) (s : σ) : (f.append g).texts opening s =
    ((f.texts opening s).1 ++ (g.texts opening (f.texts opening s).2).1,
      (g.texts opening (f.texts opening s).2).2) := by
  induction f generalizing s with
  | nil => rfl
  | node a kids rest _ ih => simp only [append,texts,ih,List.cons_append]

lemma texts_eq_nil {f : Forest α} {s : σ} : (f.texts opening s).1 = [] ↔ f = nil := by
  cases f with
  | nil => simp [texts]
  | node a kids rest => simp [texts]

lemma texts_length (f : Forest α) (s : σ) : (f.texts opening s).1.length = f.roots.length := by
  induction f generalizing s with
  | nil => rfl
  | node a kids rest _ ih => simp only [texts,roots,List.length_cons,ih]

end Forest

namespace Json

/-- The text opens an array and, at its end, another one in it. -/
def Opens (b : List UInt8) : Prop :=
  ∃ c, b = code '[' :: c ∧
    ∀ stack, run ⟨.element,.arr :: stack⟩ c = some ⟨.element,.arr :: .arr :: stack⟩

/-- The text is an array. -/
def IsArray (b : List UInt8) : Prop :=
  (∃ c, b = code '[' :: c) ∧ ∀ stack, run ⟨.value,stack⟩ b = some ⟨.after,stack⟩

lemma IsArray.content {b : List UInt8} (h : IsArray b) : Content .arr b :=
  fun stack => ⟨.after,rfl,h.2 (.arr :: stack)⟩

/-- Right after an opening bracket an array is read as anywhere else. -/
theorem IsArray.run_element {b : List UInt8} (h : IsArray b) (stack : List Frame) :
    run ⟨.element,.arr :: stack⟩ b = some ⟨.after,.arr :: stack⟩ :=
  run_opened (f := .arr) (h.2 (.arr :: stack)) rfl

/-- What is read so far, when the elements of an array have been written one after the other. -/
def elementsRead : ℕ → Option Mode
  | 0 => some .element
  | 1 => some .after
  | _ => none

/-- Without commas an array has room for one element. -/
theorem run_flatten {bs : List (List UInt8)} (h : ∀ b ∈ bs, IsArray b) (stack : List Frame) :
    run ⟨.element,.arr :: stack⟩ bs.flatten =
      (elementsRead bs.length).map fun m => ⟨m,.arr :: stack⟩ := by
  cases bs with
  | nil => rfl
  | cons a bs =>
    have ha := (h a List.mem_cons_self).run_element stack
    rw [List.flatten_cons,run_append,ha,Option.bind_some]
    cases bs with
    | nil => rfl
    | cons b bs =>
      obtain ⟨⟨c,rfl⟩,-⟩ := h b (List.mem_cons_of_mem _ List.mem_cons_self)
      rfl

end Json

namespace Forest
variable {α σ : Type} {opening : α → σ → List UInt8 × σ}

lemma isArray_texts {f : Forest α} (h : ∀ a ∈ f.toList, ∀ s, Opens (opening a s).1) (s : σ) :
    ∀ b ∈ (f.texts opening s).1, IsArray b := by
  induction f generalizing s with
  | nil =>
    intro b hb
    cases hb
  | node a kids rest ihk ihr =>
    intro b hb
    rcases List.mem_cons.mp hb with rfl | hb
    · obtain ⟨c,hc,hrun⟩ := h a List.mem_cons_self s
      have hbelow := ihk (fun k hk => h k (mem_kids hk))
        (opening a s).2
      refine ⟨⟨_,by rw [hc]; rfl⟩,fun stack => ?_⟩
      rw [hc,List.append_assoc,List.cons_append]
      have hopen : step (code '[') ⟨.value,stack⟩ = some ⟨.element,.arr :: stack⟩ := rfl
      refine run_cons hopen (run_trans (hrun stack) ?_)
      rcases content_of_forall (fun b hb => (hbelow b hb).content) with hnil | hcontent
      · rw [hnil]
        rfl
      · obtain ⟨m,hm,hread⟩ := hcontent (.arr :: stack)
        have hclose : step (code ']') ⟨m,.arr :: .arr :: stack⟩ = some ⟨.after,.arr :: stack⟩ :=
          (step_of_done hm (isEnd_close .arr) _).trans (next_close .arr _)
        exact run_trans (run_opened hread hm) (run_cons hclose rfl)
    · exact ihr (fun k hk => h k (mem_rest hk)) _ b hb

end Forest
end PhpAgent
