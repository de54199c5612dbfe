import Mathlib.Data.List.Infix

/-! Streams that are written and read by pieces. Each call has an answer, which moves some of what it is
asked for or fails; a loop goes on from there, or asks its caller what to do about the failure. A call
without an answer does not return. -/
namespace PhpAgent.Pieces

variable {α ε τ ρ : Type}

/-- The answer to a call: how much it is ready to move, or an error. -/
inductive Answer (ε : Type)
  | moved (n : ℕ)
  | failed (e : ε)
deriving DecidableEq

/-- What a loop does about an error, in a state of its caller. -/
inductive Next (ε τ : Type)
  | again (s : τ)
  | stop (e : ε) (s : τ)
  | wait (s : τ)

/-- What a loop returns; none while it has not. -/
abbrev Returned (ε ρ : Type) : Type := Option (Except ε ρ)

/-! ### Writing -/

/-- What a write has moved, and what is left of answers and state. -/
structure Written (α ε τ : Type) where
  sent : List α
  status : Returned ε Unit
  answers : List (Answer ε)
  state : τ

/-- The loop of a write over what remains. -/
def drain (onError : ε → τ → Next ε τ) : List α → List (Answer ε) → τ → Written α ε τ
  | [],answers,s => ⟨[],some (.ok ()),answers,s⟩
  | _ :: _,[],s => ⟨[],none,[],s⟩
  | a :: l,.moved n :: answers,s =>
    let r := drain onError ((a :: l).drop n) answers s
    { r with sent := (a :: l).take n ++ r.sent }
  | a :: l,.failed e :: answers,s =>
    match onError e s with
    | .again s => drain onError (a :: l) answers s
    | .stop e s => ⟨[],some (.error e),answers,s⟩
    | .wait s => ⟨[],none,answers,s⟩
termination_by structural _ answers => answers

/-- What is sent is the start of the buffer, and all of it if and only if the write says so. -/
structure Sends (l : List α) (r : Written α ε τ) : Prop where
  sent : r.sent <+: l
  all : r.status = some (.ok ()) ↔ r.sent = l

section Writing
variable {onError : ε → τ → Next ε τ} {l l' : List α} {answers : List (Answer ε)} {s : τ}

lemma Sends.stopped {a : α} {status : Returned ε Unit} (h : status ≠ some (.ok ())) :
    Sends (a :: l) ⟨[],status,answers,s⟩ := ⟨List.nil_prefix,by simp [h]⟩

lemma sends_drain (onError : ε → τ → Next ε τ) (l : List α) (answers : List (Answer ε)) (s : τ) :
    Sends l (drain onError l answers s) := by
  fun_induction drain onError l answers s with
  | case1 answers s => exact ⟨List.prefix_rfl,by simp⟩
  | case2 => exact Sends.stopped (by simp)
  | case3 a l n answers s r ih =>
    obtain ⟨hsent,hall⟩ := ih
    have hsplit := List.take_append_drop n (a :: l)
    refine ⟨?_,hall.trans ⟨fun h => ?_,fun h => ?_⟩⟩
    · calc (a :: l).take n ++ r.sent <+: (a :: l).take n ++ (a :: l).drop n :=
            (List.prefix_append_right_inj _).mpr hsent
        _ = a :: l := hsplit
    · change (a :: l).take n ++ r.sent = a :: l
      rw [h,hsplit]
    · exact List.append_cancel_left (h.trans hsplit.symm)
  | case4 a l e answers s s' hnext ih => exact ih
  | case5 => exact Sends.stopped (by simp)
  | case6 => exact Sends.stopped (by simp)

/-- One buffer after another. -/
theorem Sends.append {r r' : Written α ε τ} (h : Sends l r) (h' : Sends l' r')
    (hok : r.status = some (.ok ())) : Sends (l ++ l') { r' with sent := r.sent ++ r'.sent } := by
  have hl := h.all.mp hok
  refine ⟨?_,h'.all.trans ⟨fun heq => ?_,fun heq => ?_⟩⟩
  · change r.sent ++ r'.sent <+: l ++ l'
    rw [hl]
    exact (List.prefix_append_right_inj l).mpr h'.sent
  · change r.sent ++ r'.sent = l ++ l'
    rw [hl,heq]
  · change r.sent ++ r'.sent = l ++ l' at heq
    rw [hl] at heq
    exact List.append_cancel_left heq

/-- The second buffer is not begun when the first is not sent. -/
theorem Sends.short {r : Written α ε τ} (h : Sends l r) (hok : r.status ≠ some (.ok ())) :
    Sends (l ++ l') r := by
  refine ⟨h.sent.trans (List.prefix_append l l'),⟨fun h' => absurd h' hok,fun heq => ?_⟩⟩
  have hlen := h.sent.length_le
  rw [heq,List.length_append] at hlen
  have hnil : l' = [] := List.length_eq_zero_iff.mp (by omega)
  exact h.all.mpr (by rw [heq,hnil,List.append_nil])

end Writing

/-! ### Reading -/

/-- What a read gives, and what is left of the stream, of answers and state. -/
structure Taken (α ε τ ρ : Type) where
  value : Returned ε ρ
  rest : List α
  answers : List (Answer ε)
  state : τ

/-- The loop of a read: what it has already, and how much remains. A call moves nothing only at the end
of the stream. -/
def fill (onError : ε → τ → Next ε τ) (atEnd : List α → ε) :
    List α → ℕ → List α → List (Answer ε) → τ → Taken α ε τ (List α)
  | buf,0,incoming,answers,s => ⟨some (.ok buf),incoming,answers,s⟩
  | _,_+1,incoming,[],s => ⟨none,incoming,[],s⟩
  | buf,remaining+1,incoming,.moved n :: answers,s =>
    let got := incoming.take (min (max 1 n) (remaining+1))
    if got.isEmpty then ⟨some (.error (atEnd buf)),incoming,answers,s⟩
    else fill onError atEnd (buf ++ got) (remaining+1-got.length) (incoming.drop got.length) answers s
  | buf,remaining+1,incoming,.failed e :: answers,s =>
    match onError e s with
    | .again s => fill onError atEnd buf (remaining+1) incoming answers s
    | .stop e s => ⟨some (.error e),incoming,answers,s⟩
    | .wait s => ⟨none,incoming,answers,s⟩
termination_by structural _ _ _ answers => answers

/-- A read that returns a value has taken so much off the stream. -/
def Takes (buf : List α) (n : ℕ) (incoming : List α) (r : Taken α ε τ (List α)) : Prop :=
  ∀ b, r.value = some (.ok b) → n ≤ incoming.length ∧ b = buf ++ incoming.take n ∧ r.rest = incoming.drop n

/-- No call fails. -/
def Moving (answers : List (Answer ε)) : Prop := ∀ a ∈ answers, ∃ n, a = .moved n

lemma Moving.of_cons {a : Answer ε} {answers : List (Answer ε)} (h : Moving (a :: answers)) :
    Moving answers := fun b hb => h b (List.mem_cons_of_mem a hb)

/-- What one call gets is a part of what a read gets. -/
theorem take_got (l : List α) {k m : ℕ} (hk : k ≤ m) : (l.take k).length ≤ m ∧
    l.take k ++ (l.drop (l.take k).length).take (m-(l.take k).length) = l.take m := by
  have hle : (l.take k).length ≤ m := by
    rw [List.length_take]
    omega
  have hgot : l.take (l.take k).length = l.take k := by rw [List.length_take,← List.take_eq_take_min]
  refine ⟨hle,?_⟩
  generalize (l.take k).length = n at hgot hle
  rw [← hgot,← List.take_add,Nat.add_sub_cancel' hle]

section Reading
variable (onError : ε → τ → Next ε τ) (atEnd : List α → ε)

lemma takes_fill (buf : List α) (n : ℕ) (incoming : List α) (answers : List (Answer ε)) (s : τ) :
    Takes buf n incoming (fill onError atEnd buf n incoming answers s) := by
  fun_induction fill onError atEnd buf n incoming answers s with
  | case1 buf incoming answers s =>
    rintro b hb
    cases hb
    simp
  | case2 | case3 => exact fun b hb => by cases hb
  | case4 buf remaining incoming k answers s got hne ih =>
    intro b hb
    obtain ⟨hlen,hb,hrest⟩ := ih b hb
    obtain ⟨hle,hsplit⟩ := take_got incoming (Nat.min_le_right (max 1 k) (remaining+1))
    have hin : got.length ≤ incoming.length := (List.take_prefix _ _).length_le
    rw [List.length_drop] at hlen
    exact ⟨by omega,by rw [hb,List.append_assoc,hsplit],
      by rw [hrest,List.drop_drop,Nat.add_sub_cancel' hle]⟩
  | case5 buf remaining incoming e answers s s' hnext ih => exact ih
  | case6 | case7 => exact fun b hb => by cases hb

lemma fill_answers_le (buf : List α) (n : ℕ) (incoming : List α) (answers : List (Answer ε)) (s : τ) :
    (fill onError atEnd buf n incoming answers s).answers.length ≤ answers.length := by
  fun_induction fill onError atEnd buf n incoming answers s with
  | case1 | case2 | case3 | case6 | case7 => simp
  | case4 buf remaining incoming k answers s got hne ih =>
    rw [List.length_cons]
    omega
  | case5 buf remaining incoming e answers s s' hnext ih =>
    rw [List.length_cons]
    omega

/-- A read of something that returns has used a call. -/
theorem fill_answers_lt {buf : List α} {n : ℕ} {incoming : List α} {answers : List (Answer ε)} {s : τ}
    (hn : 0 < n) (h : (fill onError atEnd buf n incoming answers s).value ≠ none) :
    (fill onError atEnd buf n incoming answers s).answers.length < answers.length := by
  fun_induction fill onError atEnd buf n incoming answers s with
  | case1 => omega
  | case2 => exact absurd rfl h
  | case3 | case6 | case7 => simp
  | case4 buf remaining incoming k answers s got hne ih =>
    have hle := fill_answers_le onError atEnd (buf ++ got) (remaining+1-got.length)
      (incoming.drop got.length) answers s
    rw [List.length_cons]
    omega
  | case5 buf remaining incoming e answers s s' hnext ih =>
    have hlt := ih hn h
    rw [List.length_cons]
    omega

/-- When no call fails and the bytes come, a read returns them; each call moves at least one. -/
theorem fill_moving (buf : List α) (n : ℕ) (incoming : List α) (answers : List (Answer ε)) (s : τ)
    (hmoving : Moving answers) (hlen : n ≤ incoming.length) (hanswers : n ≤ answers.length) :
    (fill onError atEnd buf n incoming answers s).value = some (.ok (buf ++ incoming.take n)) ∧
      Moving (fill onError atEnd buf n incoming answers s).answers ∧
      answers.length ≤ (fill onError atEnd buf n incoming answers s).answers.length + n := by
  fun_induction fill onError atEnd buf n incoming answers s with
  | case1 buf incoming answers s => exact ⟨by simp,hmoving,by simp⟩
  | case2 => exact absurd hanswers (by simp)
  | case3 buf remaining incoming k answers s got hgot =>
    rw [List.isEmpty_iff,List.take_eq_nil_iff] at hgot
    obtain hzero | hnil := hgot
    · omega
    · rw [hnil] at hlen
      simp at hlen
  | case4 buf remaining incoming k answers s got hne ih =>
    obtain ⟨hle,hsplit⟩ := take_got incoming (Nat.min_le_right (max 1 k) (remaining+1))
    have hpos : 0 < got.length := List.length_pos_iff.mpr (by simpa using hne)
    rw [List.length_cons] at hanswers
    obtain ⟨hvalue,hrest,hcount⟩ := ih hmoving.of_cons (by rw [List.length_drop]; omega) (by omega)
    exact ⟨by rw [hvalue,List.append_assoc,hsplit],hrest,by rw [List.length_cons]; omega⟩
  | case5 | case6 | case7 =>
    obtain ⟨k,hk⟩ := hmoving _ List.mem_cons_self
    cases hk

end Reading
end PhpAgent.Pieces
