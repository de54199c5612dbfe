import PhpAgent.Util.Sql

/-! Where the cursor of `nr_sql_obfuscate` goes and how much it writes. The cursor passes the terminator
only behind a backslash that ends an open literal. -/
namespace PhpAgent

/-- What stands in front of the byte that is found. -/
theorem strchr_split {s p : Bytes} {c : UInt8} (h : strchr s c = some p) :
    ∃ front rest, s = front ++ c :: rest ∧ c ∉ front ∧ p = c :: rest := by
  induction s with
  | nil => cases h
  | cons b s ih =>
    unfold strchr at h
    split_ifs at h with hb
    · cases h
      exact ⟨[],s,by rw [hb]; rfl,List.not_mem_nil,by rw [hb]⟩
    · obtain ⟨front,rest,rfl,hfront,hp⟩ := ih h
      refine ⟨b :: front,rest,rfl,?_,hp⟩
      rw [List.mem_cons,not_or]
      exact ⟨Ne.symm hb,hfront⟩

lemma strstr_suffix {s needle p : Bytes} (h : strstr s needle = some p) :
    p <:+ s ∧ needle <+: p := by
  induction s with
  | nil =>
    unfold strstr at h
    split_ifs at h with hneedle
    cases h
    exact ⟨List.suffix_refl _,List.isPrefixOf_iff_prefix.mp hneedle⟩
  | cons b s ih =>
    unfold strstr at h
    split_ifs at h with hneedle
    · cases h
      exact ⟨List.suffix_refl _,List.isPrefixOf_iff_prefix.mp hneedle⟩
    · obtain ⟨hsuf,hpre⟩ := ih h
      exact ⟨hsuf.trans (List.suffix_cons b s),hpre⟩

namespace Sql
open Json (code)

/-! ### The output -/

variable {fuel : ℕ}

/-- Every round writes at most as many bytes as it reads. -/
theorem obfuscateFrom_length {state : State} {s out : Bytes}
    (h : obfuscateFrom fuel state s = some out) : out.length ≤ s.length := by
  induction fuel generalizing state s out with
  | zero =>
    cases s with
    | nil =>
      cases h
      exact le_rfl
    | cons c s => cases h
  | succ fuel ih =>
    cases s with
    | nil =>
      cases h
      exact le_rfl
    | cons c rest =>
      have hshown : ∀ {state' : State} {b : UInt8},
          (obfuscateFrom fuel state' rest).map (b :: ·) = some out → out.length ≤ rest.length+1 := by
        intro state' b hmap
        obtain ⟨out',hout',rfl⟩ := Option.map_eq_some_iff.mp hmap
        exact Nat.succ_le_succ (ih hout')
      have hstring : ∀ quote : Quote, stringRound (obfuscateFrom fuel) quote.state quote.byte c rest =
          some out → out.length ≤ rest.length+1 := by
        intro quote hround
        unfold stringRound at hround
        split_ifs at hround
        · cases rest with
          | nil => cases hround
          | cons d rest =>
            have hle := ih hround
            rw [List.length_cons]
            omega
        · have hle := ih hround
          rw [List.length_tail] at hle
          omega
        · exact Nat.le_succ_of_le (ih hround)
        · exact Nat.le_succ_of_le (ih hround)
      rw [List.length_cons]
      cases state with
      | normal =>
        rw [obfuscateFrom,normalRound] at h
        split_ifs at h
        · exact hshown h
        · exact hshown h
        · cases hfound : strchr (c :: rest) (code '\n') with
          | none =>
            rw [hfound] at h
            cases h
            exact Nat.zero_le _
          | some p =>
            rw [hfound] at h
            have hle := ih h
            obtain ⟨front,behind,hsplit,-,rfl⟩ := strchr_split hfound
            have hlen := congrArg List.length hsplit
            rw [List.length_append,List.length_cons] at hlen
            rw [List.tail_cons] at hle
            rw [List.length_cons] at hlen
            omega
        · cases hfound : strstr (c :: rest) (ascii "*/") with
          | none =>
            rw [hfound] at h
            cases h
            exact Nat.zero_le _
          | some p =>
            rw [hfound] at h
            have hle := ih h
            have hp := (strstr_suffix hfound).1.length_le
            rw [List.length_drop] at hle
            rw [List.length_cons] at hp
            omega
        · exact hshown h
        · exact hshown h
      | inDouble => exact hstring .double h
      | inSingle => exact hstring .single h
      | inDigits =>
        rw [obfuscateFrom] at h
        split_ifs at h
        · exact Nat.le_succ_of_le (ih h)
        · exact ih h

/-! ### The cursor -/

/-- A whole piece of normal text, in front of what follows it: a literal, a comment, or a byte that
begins neither. -/
inductive Piece : Bytes → Bytes → Prop
  | literal (quote : Quote) {content rest : Bytes} (hcontent : LiteralContent quote content)
      (hrest : rest.head? ≠ some quote.byte) : Piece (quote.byte :: (content ++ quote.byte :: rest)) rest
  | line {content : Bytes} (hcontent : code '\n' ∉ content) (rest : Bytes) :
      Piece (code '-' :: code '-' :: (content ++ code '\n' :: rest)) rest
  | comment {s p : Bytes} (hfound : strstr (code '/' :: code '*' :: s) (ascii "*/") = some p) :
      Piece (code '/' :: code '*' :: s) (p.drop 2)
  | byte {c : UInt8} {rest : Bytes} (hquote : ∀ quote : Quote, c ≠ quote.byte)
      (hline : ¬(c = code '-' ∧ rest.head? = some (code '-')))
      (hcomment : ¬(c = code '/' ∧ rest.head? = some (code '*'))) : Piece (c :: rest) rest

/-- Behind whole pieces a literal is opened that the text ends in, and its last byte is a backslash that
is to escape the next. -/
def EndsInEscape (s : Bytes) : Prop :=
  ∃ (quote : Quote) (content : Bytes), LiteralContent quote content ∧
    Relation.ReflTransGen Piece s (quote.byte :: (content ++ [code '\\']))

lemma obfuscateFrom_open (fuel : ℕ) (quote : Quote) (rest : Bytes) :
    obfuscateFrom (fuel+1) .normal (quote.byte :: rest) =
      (obfuscateFrom fuel quote.state rest).map (code '?' :: ·) := by
  cases quote <;> rfl

variable {s : Bytes}

/-- The cursor leaves the text inside an open literal, or in what follows its end. -/
theorem open_or_closed {quote : Quote} (hfuel : 2*s.length ≤ fuel)
    (h : obfuscateFrom fuel quote.state s = none) :
    ∃ content, LiteralContent quote content ∧ (s = content ++ [code '\\'] ∨
      ∃ rest fuel', s = content ++ quote.byte :: rest ∧ rest.head? ≠ some quote.byte ∧
        2*rest.length ≤ fuel' ∧ obfuscateFrom fuel' .normal rest = none) := by
  induction fuel generalizing s with
  | zero =>
    obtain rfl : s = [] := List.eq_nil_of_length_eq_zero (by omega)
    cases quote <;> cases h
  | succ fuel ih =>
    cases s with
    | nil => cases quote <;> cases h
    | cons c rest =>
      rw [List.length_cons] at hfuel
      rw [obfuscateFrom_string] at h
      unfold stringRound at h
      split_ifs at h with hback hquote hdoubled
      · subst hback
        cases rest with
        | nil => exact ⟨[],.nil,.inl rfl⟩
        | cons d rest =>
          rw [List.length_cons] at hfuel
          obtain ⟨content,hcontent,hend⟩ := ih (by omega) h
          refine ⟨code '\\' :: d :: content,.escape hcontent,?_⟩
          obtain rfl | ⟨rest',fuel',rfl,hrest⟩ := hend
          · exact .inl rfl
          · exact .inr ⟨rest',fuel',rfl,hrest⟩
      · subst hquote
        obtain ⟨d,rest,rfl⟩ : ∃ d rest', rest = d :: rest' := List.exists_cons_of_ne_nil (by
          rintro rfl
          cases hdoubled)
        obtain rfl : d = quote.byte := Option.some_inj.mp hdoubled
        rw [List.length_cons] at hfuel
        rw [List.tail_cons] at h
        obtain ⟨content,hcontent,hend⟩ := ih (by omega) h
        refine ⟨quote.byte :: quote.byte :: content,.doubled hcontent,?_⟩
        obtain rfl | ⟨rest',fuel',rfl,hrest⟩ := hend
        · exact .inl rfl
        · exact .inr ⟨rest',fuel',rfl,hrest⟩
      · subst hquote
        exact ⟨[],.nil,.inr ⟨rest,fuel,rfl,hdoubled,by omega,h⟩⟩
      · obtain ⟨content,hcontent,hend⟩ := ih (by omega) h
        refine ⟨c :: content,.other hquote hback hcontent,?_⟩
        obtain rfl | ⟨rest',fuel',rfl,hrest⟩ := hend
        · exact .inl rfl
        · exact .inr ⟨rest',fuel',rfl,hrest⟩

lemma digit_piece {d : UInt8} (hd : Json.isDigit d = true) (rest : Bytes) : Piece (d :: rest) rest := by
  have hne : ∀ c, Json.isDigit c = false → d ≠ c := by
    rintro c hc rfl
    rw [hd] at hc
    cases hc
  apply Piece.byte
  · intro quote
    cases quote
    · exact hne _ rfl
    · exact hne _ rfl
  · exact fun h => hne _ rfl h.1
  · exact fun h => hne _ rfl h.1

/-- From inside a number the cursor leaves the text in what follows the digits. -/
theorem behind_digits (hfuel : 2*s.length ≤ fuel)
    (h : obfuscateFrom fuel .inDigits s = none) : ∃ rest fuel', Relation.ReflTransGen Piece s rest ∧
      rest.length ≤ s.length ∧ 2*rest.length ≤ fuel'+1 ∧ obfuscateFrom fuel' .normal rest = none := by
  induction fuel generalizing s with
  | zero =>
    obtain rfl : s = [] := List.eq_nil_of_length_eq_zero (by omega)
    cases h
  | succ fuel ih =>
    cases s with
    | nil => cases h
    | cons c rest =>
      rw [obfuscateFrom] at h
      split_ifs at h with hc
      · rw [List.length_cons] at hfuel
        obtain ⟨rest',fuel',hreach,hlen,hfuel',hnone⟩ := ih (by omega) h
        exact ⟨rest',fuel',.head (digit_piece hc rest) hreach,Nat.le_succ_of_le hlen,hfuel',hnone⟩
      · exact ⟨c :: rest,fuel,.refl,le_rfl,hfuel,h⟩

lemma EndsInEscape.of_reaches {s rest : Bytes} (h : Relation.ReflTransGen Piece s rest)
    (hrest : EndsInEscape rest) : EndsInEscape s := by
  obtain ⟨quote,content,hcontent,hreach⟩ := hrest
  exact ⟨quote,content,hcontent,h.trans hreach⟩

/-- Where the cursor leaves the text, it ends in an escape. The fuel is enough for two rounds a byte, so
it is the cursor that has no result; the induction is on the length of what is left. -/
theorem endsInEscape_of_none (hfuel : 2*s.length ≤ fuel+1)
    (h : obfuscateFrom fuel .normal s = none) : EndsInEscape s := by
  induction hn : s.length using Nat.strong_induction_on generalizing fuel s with
  | _ n ih =>
    subst hn
    cases s with
    | nil => cases fuel <;> cases h
    | cons c rest =>
      rw [List.length_cons] at hfuel ih
      obtain ⟨fuel,rfl⟩ : ∃ n, fuel = n+1 := Nat.exists_eq_add_one.mpr (by omega)
      have hgo : ∀ {rest' : Bytes} {fuel' : ℕ}, Relation.ReflTransGen Piece (c :: rest) rest' →
          rest'.length < rest.length+1 → 2*rest'.length ≤ fuel'+1 →
          obfuscateFrom fuel' .normal rest' = none → EndsInEscape (c :: rest) := by
        intro rest' fuel' hreach hlen hfuel' hnone
        exact .of_reaches hreach (ih _ hlen hfuel' hnone rfl)
      have hliteral : ∀ quote : Quote, c = quote.byte →
          obfuscateFrom fuel quote.state rest = none → EndsInEscape (c :: rest) := by
        rintro quote rfl hnone
        obtain ⟨content,hcontent,rfl | ⟨rest',fuel',rfl,hhead,hlen,hnone'⟩⟩ :=
          open_or_closed (by omega) hnone
        · exact ⟨quote,content,hcontent,.refl⟩
        · apply hgo (.single (.literal quote hcontent hhead)) _ (Nat.le_succ_of_le hlen) hnone'
          rw [List.length_append,List.length_cons]
          omega
      rw [obfuscateFrom,normalRound] at h
      split_ifs at h with hdouble hsingle hdashes hslash hdigit
      · exact hliteral .double hdouble (Option.map_eq_none_iff.mp h)
      · exact hliteral .single hsingle (Option.map_eq_none_iff.mp h)
      · obtain ⟨rfl,hhead⟩ := hdashes
        obtain ⟨d,rest,rfl⟩ : ∃ d rest', rest = d :: rest' := List.exists_cons_of_ne_nil (by
          rintro rfl
          cases hhead)
        obtain rfl : d = code '-' := Option.some_inj.mp hhead
        have hdash : (code '-' :: code '-' :: rest) = [code '-',code '-'] ++ rest := rfl
        rw [hdash,strchr_append (by decide)] at h
        cases hfound : strchr rest (code '\n') with
        | none =>
          rw [hfound] at h
          cases h
        | some p =>
          obtain ⟨front,behind,rfl,hfront,rfl⟩ := strchr_split hfound
          rw [hfound] at h
          simp only [List.length_cons,List.length_append] at hfuel
          apply hgo (.single (.line hfront behind)) _ _ h
          · simp only [List.length_cons,List.length_append]
            omega
          · omega
      · obtain ⟨rfl,hhead⟩ := hslash
        obtain ⟨d,rest,rfl⟩ : ∃ d rest', rest = d :: rest' := List.exists_cons_of_ne_nil (by
          rintro rfl
          cases hhead)
        obtain rfl : d = code '*' := Option.some_inj.mp hhead
        cases hfound : strstr (code '/' :: code '*' :: rest) (ascii "*/") with
        | none =>
          rw [hfound] at h
          cases h
        | some p =>
          rw [hfound] at h
          have hlen := (strstr_suffix hfound).1.length_le
          have hneedle := (strstr_suffix hfound).2.length_le
          have htwo : (ascii "*/").length = 2 := rfl
          simp only [List.length_cons] at hlen hfuel
          apply hgo (.single (.comment hfound)) _ _ h
          · rw [List.length_drop,List.length_cons]
            omega
          · rw [List.length_drop]
            omega
      · obtain ⟨rest',fuel',hreach,hlen,hfuel',hnone⟩ :=
          behind_digits (by omega) (Option.map_eq_none_iff.mp h)
        exact hgo (.head (digit_piece hdigit rest) hreach) (Nat.lt_succ_of_le hlen) hfuel' hnone
      · apply hgo (.single (.byte _ hdashes hslash)) (Nat.lt_succ_self _) _
          (Option.map_eq_none_iff.mp h)
        · intro quote
          cases quote
          · exact hdouble
          · exact hsingle
        · omega

/-- There is no result for the text, with any fuel that is enough. -/
def Leaves (s : Bytes) : Prop := ∀ fuel, 2*s.length ≤ fuel → obfuscateFrom fuel .normal s = none

/-- A number in front of such a text does not change this. -/
theorem Leaves.inDigits (h : Leaves s) (hfuel : 2*s.length+1 ≤ fuel) :
    obfuscateFrom fuel .inDigits s = none := by
  obtain ⟨fuel,rfl⟩ : ∃ n, fuel = n+1 := Nat.exists_eq_add_one.mpr (by omega)
  cases s with
  | nil => exact absurd (h 0 (Nat.zero_le _)) nofun
  | cons c rest =>
    rw [obfuscateFrom]
    split_ifs with hc
    · have hnormal := h (fuel+1) (Nat.le_of_succ_le hfuel)
      have hne : ∀ b, Json.isDigit b = false → c ≠ b := by
        rintro b hb rfl
        rw [hc] at hb
        cases hb
      rw [obfuscateFrom,normalRound,if_neg (hne _ rfl),if_neg (hne _ rfl),
        if_neg (fun h => hne _ rfl h.1),if_neg (fun h => hne _ rfl h.1),if_pos hc] at hnormal
      exact Option.map_eq_none_iff.mp hnormal
    · exact h fuel (by omega)

/-- A whole piece leaves the cursor where the text goes on. -/
theorem Leaves.of_piece {s rest : Bytes} (h : Piece s rest) (hrest : Leaves rest) : Leaves s := by
  intro fuel hfuel
  cases h with
  | @literal quote content _ hcontent hhead =>
    obtain ⟨k,hk,hrun⟩ := obfuscate_string hcontent hhead
    simp only [List.length_cons,List.length_append] at hfuel
    obtain ⟨n,rfl⟩ : ∃ n, fuel = n+k+1 := ⟨fuel-k-1,by omega⟩
    rw [obfuscateFrom_open,hrun,hrest n (by omega)]
    rfl
  | @line content hcontent _ =>
    simp only [List.length_cons,List.length_append] at hfuel
    obtain ⟨n,rfl⟩ : ∃ n, fuel = n+1 := ⟨fuel-1,by omega⟩
    rw [obfuscate_dashes,strchr_append hcontent,strchr,if_pos rfl]
    exact hrest n (by omega)
  | @comment s p hfound =>
    have hlen := (strstr_suffix hfound).1.length_le
    simp only [List.length_cons] at hlen hfuel
    obtain ⟨n,rfl⟩ : ∃ n, fuel = n+1 := ⟨fuel-1,by omega⟩
    rw [obfuscate_opening,hfound]
    apply hrest
    rw [List.length_drop]
    omega
  | @byte c _ hquote hline hcomment =>
    rw [List.length_cons] at hfuel
    obtain ⟨n,rfl⟩ : ∃ n, fuel = n+1 := ⟨fuel-1,by omega⟩
    have hdouble : c ≠ code '"' := hquote .double
    have hsingle : c ≠ code '\'' := hquote .single
    rw [obfuscateFrom,normalRound,if_neg hdouble,if_neg hsingle,if_neg hline,if_neg hcomment]
    split_ifs
    · rw [hrest.inDigits (by omega)]
      rfl
    · rw [hrest n (by omega)]
      rfl

/-- An escape at the end takes the cursor out of the text. -/
theorem leaves_escape {quote : Quote} {content : Bytes} (h : LiteralContent quote content) :
    ∀ fuel, obfuscateFrom fuel quote.state (content ++ [code '\\']) = none := by
  have hend : ∀ fuel rest, rest ≠ [] → (∀ n c tail, rest = c :: tail → fuel = n+1 →
      stringRound (obfuscateFrom n) quote.state quote.byte c tail = none) →
      obfuscateFrom fuel quote.state rest = none := by
    intro fuel rest hne hround
    obtain ⟨c,tail,rfl⟩ := List.exists_cons_of_ne_nil hne
    cases fuel with
    | zero => cases quote <;> rfl
    | succ n =>
      rw [obfuscateFrom_string]
      exact hround n c tail rfl rfl
  induction h with
  | nil =>
    intro fuel
    apply hend fuel _ (List.cons_ne_nil _ _)
    rintro n c tail heq -
    cases heq
    simp [stringRound]
  | escape _ ih =>
    intro fuel
    apply hend fuel _ (List.cons_ne_nil _ _)
    rintro n c tail heq -
    cases heq
    rw [List.append_eq,List.cons_append,stringRound_escape]
    exact ih n
  | doubled _ ih =>
    intro fuel
    apply hend fuel _ (List.cons_ne_nil _ _)
    rintro n c tail heq -
    cases heq
    rw [List.append_eq,List.cons_append,stringRound_doubled]
    exact ih n
  | other hquote hback _ ih =>
    intro fuel
    apply hend fuel _ (List.cons_ne_nil _ _)
    rintro n c tail heq -
    cases heq
    rw [stringRound_other _ _ _ hquote hback]
    exact ih n

lemma EndsInEscape.leaves (h : EndsInEscape s) : Leaves s := by
  obtain ⟨quote,content,hcontent,hreach⟩ := h
  induction hreach using Relation.ReflTransGen.head_induction_on with
  | refl =>
    intro fuel hfuel
    rw [List.length_cons] at hfuel
    obtain ⟨n,rfl⟩ : ∃ n, fuel = n+1 := ⟨fuel-1,by omega⟩
    rw [obfuscateFrom_open,leaves_escape hcontent]
    rfl
  | head hpiece _ ih => exact ih.of_piece hpiece

/-- The cursor stays in the text, and the output with its terminator fits the buffer, exactly when the
text does not end in an escape. -/
theorem obfuscate_fits_iff (raw : Bytes) :
    (∃ out, obfuscate raw = some out ∧ out.length+1 ≤ raw.length+1) ↔ ¬EndsInEscape raw := by
  constructor
  · rintro ⟨out,hout,-⟩ hescape
    rw [obfuscate,hescape.leaves _ le_rfl] at hout
    cases hout
  · intro hescape
    cases hout : obfuscate raw with
    | none => exact absurd (endsInEscape_of_none (Nat.le_succ _) hout) hescape
    | some out => exact ⟨out,rfl,Nat.succ_le_succ (obfuscateFrom_length hout)⟩

/-- The cursor leaves `'\`. -/
theorem obfuscate_leaves_text :
    ¬∃ out, obfuscate (ascii "'\\") = some out ∧ out.length+1 ≤ (ascii "'\\").length+1 := by
  rintro ⟨out,hout,-⟩
  have hnone : obfuscate (ascii "'\\") = none := by decide
  rw [hnone] at hout
  cases hout

end Sql
end PhpAgent
