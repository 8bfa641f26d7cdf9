import TwinScript.Proofs.Spacing

/-!
# Tokens under later edits

A token is settled by the text up to and including the one character after it. Two texts that agree
up to some index therefore have the same tokens before that index, whatever comes later, be it other
tokens or an error. The proof compares the layouts of the two texts piece by piece: a piece that
ends before the index in one text stands in the other, and a text has only one piece at its head.
-/
namespace TwinScript
open Script Text

def Token.endIndex? (source : List Char) (t : Token) : Option Nat :=
  (cut? t.span.stop source).map fun (before, _) => before.length

theorem Piece.endIndex?_token (p : Piece) (before rest : List Char) :
    (p.token before).endIndex? (before ++ p.text ++ rest) = some (before ++ p.text).length := by
  rw [Token.endIndex?, stop_token, cut?_byteSize_append]
  rfl

theorem Text.exists_append_of_take_eq {front rest text : List Char} {n : Nat}
    (h : (front ++ rest).take n = text.take n) (hn : front.length ≤ n) :
    ∃ rest', text = front ++ rest' ∧
      rest.take (n - front.length) = rest'.take (n - front.length) := by
  have hfront : text.take front.length = front := by
    calc
      text.take front.length = (text.take n).take front.length := by
        rw [List.take_take, Nat.min_eq_left hn]
      _ = ((front ++ rest).take n).take front.length := by rw [h]
      _ = front := by rw [List.take_take, Nat.min_eq_left hn, List.take_left]
  have hsplit : front ++ text.drop front.length = text := by
    have happend := List.take_append_drop front.length text
    rwa [hfront] at happend
  refine ⟨text.drop front.length, hsplit.symm, ?_⟩
  rw [← hsplit, List.take_append, List.take_append] at h
  have hlong := List.take_of_length_le hn
  rw [hlong] at h
  exact List.append_cancel_left h

theorem Text.head?_eq_of_take_eq {text text' : List Char} {n : Nat} (hn : 0 < n)
    (h : text.take n = text'.take n) : text.head? = text'.head? := by
  have hhead := congrArg List.head? h
  rwa [List.head?_take, List.head?_take, if_neg (by omega), if_neg (by omega)] at hhead

namespace Piece

/-- The pieces that end before the given number of characters. -/
def settled (n : Nat) : List Piece → List Piece
  | [] => []
  | p :: ps => if p.text.length < n then p :: settled (n - p.text.length) ps else []

/-- A piece stands in every text that agrees with its own beyond its end. -/
theorem Heads.of_take_eq {p : Piece} {rest text : List Char} {n : Nat} (h : p.Heads rest)
    (hn : p.text.length < n) (htake : (p.text ++ rest).take n = text.take n) :
    ∃ rest', text = p.text ++ rest' ∧ p.Heads rest' ∧
      rest.take (n - p.text.length) = rest'.take (n - p.text.length) := by
  obtain ⟨rest', heq, hrest⟩ := exists_append_of_take_eq htake (Nat.le_of_lt hn)
  have hhead := head?_eq_of_take_eq (by omega) hrest
  exact ⟨rest', heq, h.of_follows (follows_of_head? hhead.symm), hrest⟩

theorem settled_of_halts {gap rest : List Char} (hgap : Gap.Stands gap rest) (hrest : Halts rest)
    {pieces : List Piece} {rest' : List Char} (h : Stand pieces rest') {n : Nat}
    (htake : (textOf pieces ++ rest').take n = (gap ++ rest).take n) : settled n pieces = [] := by
  cases pieces with
  | nil => rfl
  | cons p ps =>
      rw [settled, if_neg]
      intro hlt
      rw [textOf, List.append_assoc] at htake
      obtain ⟨tail, heq, hp, -⟩ := ((stand_cons_iff p ps rest').1 h).1.of_take_eq hlt htake
      exact hp.not_halts hgap hrest heq

/-- Two texts that agree up to an index have the same pieces before it. -/
theorem settled_eq {pieces pieces' : List Piece} {gap gap' rest rest' : List Char} {n : Nat}
    (h : Stand pieces (gap ++ rest)) (hgap : Gap.Stands gap rest) (hrest : Halts rest)
    (h' : Stand pieces' (gap' ++ rest')) (hgap' : Gap.Stands gap' rest') (hrest' : Halts rest')
    (htake : (textOf pieces ++ (gap ++ rest)).take n = (textOf pieces' ++ (gap' ++ rest')).take n) :
    settled n pieces = settled n pieces' := by
  induction pieces generalizing pieces' n with
  | nil => exact (settled_of_halts hgap hrest h' htake.symm).symm
  | cons p ps ih =>
      cases pieces' with
      | nil => exact settled_of_halts hgap' hrest' h htake
      | cons p' ps' =>
          obtain ⟨hp, hps⟩ := (stand_cons_iff p ps _).1 h
          obtain ⟨hp', hps'⟩ := (stand_cons_iff p' ps' _).1 h'
          simp only [textOf, List.append_assoc] at htake
          by_cases hlt : p.text.length < n
          · obtain ⟨tail, heq, hstands, htail⟩ := hp.of_take_eq hlt htake
            obtain ⟨rfl, rfl⟩ := hp'.unique hstands heq
            rw [settled, settled, if_pos hlt, if_pos hlt, ih hps hps' htail]
          · -- a settled piece of the second text would be the first piece of the first text
            have hlt' : ¬ p'.text.length < n := by
              intro hlt'
              obtain ⟨tail, heq, hstands, -⟩ := hp'.of_take_eq hlt' htake.symm
              obtain ⟨rfl, -⟩ := hp.unique hstands heq
              exact hlt hlt'
            rw [settled, settled, if_neg hlt, if_neg hlt']

theorem le_endIndex?_of_mem_tokens {source before rest : List Char} {pieces : List Piece}
    (hsource : before ++ (textOf pieces ++ rest) = source) {t : Token}
    (ht : t ∈ tokens before pieces) : ∃ m, t.endIndex? source = some m ∧ before.length ≤ m := by
  induction pieces generalizing before with
  | nil => cases ht
  | cons p ps ih =>
      rw [textOf, List.append_assoc, ← List.append_assoc before] at hsource
      rcases List.mem_cons.1 ht with rfl | hmore
      · rw [← hsource]
        refine ⟨_, p.endIndex?_token before _, ?_⟩
        rw [List.length_append]
        omega
      · obtain ⟨m, hm, hle⟩ := ih hsource hmore
        rw [List.length_append] at hle
        exact ⟨m, hm, by omega⟩

theorem filter_tokens_endIndex? {source before rest : List Char} {pieces : List Piece}
    (hsource : before ++ (textOf pieces ++ rest) = source) {n k : Nat}
    (hk : before.length + n = k) :
    (tokens before pieces).filter (fun t => (t.endIndex? source).any (· < k)) =
      tokens before (settled n pieces) := by
  induction pieces generalizing before n with
  | nil => rfl
  | cons p ps ih =>
      have hmore : before ++ p.text ++ (textOf ps ++ rest) = source := by
        rw [← hsource, textOf]
        simp only [List.append_assoc]
      have hend := p.endIndex?_token before (textOf ps ++ rest)
      rw [hmore] at hend
      have hlength : (before ++ p.text).length = before.length + p.text.length := List.length_append
      by_cases hlt : p.text.length < n
      · have hbefore : (before ++ p.text).length < k := by omega
        have hk' : (before ++ p.text).length + (n - p.text.length) = k := by omega
        rw [settled, if_pos hlt, tokens, tokens, List.filter_cons_of_pos, ih hmore hk']
        simpa only [hend, Option.any_some, decide_eq_true_eq] using hbefore
      · rw [settled, if_neg hlt, tokens, tokens, List.filter_eq_nil_iff]
        intro t ht
        rcases List.mem_cons.1 ht with rfl | hlater
        · simp only [hend, Option.any_some, decide_eq_true_eq]
          omega
        · obtain ⟨m, hm, hle⟩ := le_endIndex?_of_mem_tokens hmore hlater
          simp only [hm, Option.any_some, decide_eq_true_eq]
          omega

end Piece

namespace Reader

/-- The tokens that are read before the first error or the end of the input, and that end before
the given index. -/
def settledTokens (source : List Char) (k : Nat) : List Token :=
  ((ofText source).run.tokens.filter (·.kind ≠ .endOfInput)).filter fun t =>
    (t.endIndex? source).any (· < k)

end Reader

namespace Layout

variable {source : List Char}

theorem filter_run_tokens (layout : Layout source) (h : Halts layout.rest) :
    (Reader.ofText source).run.tokens.filter (·.kind ≠ .endOfInput) = layout.tokens := by
  rcases h with hrest | ⟨fault, hfault⟩
  · rw [layout.run_of_complete hrest, layout.filter_tokens_append]
  · obtain ⟨after, hrun⟩ := layout.run_of_fault fault hfault
    rw [hrun, layout.filter_tokens]

theorem settledTokens_eq (layout : Layout source) (h : Halts layout.rest) (k : Nat) :
    Reader.settledTokens source k = Piece.tokens [] (Piece.settled k layout.pieces) := by
  rw [Reader.settledTokens, layout.filter_run_tokens h]
  exact Piece.filter_tokens_endIndex? layout.text_eq (Nat.zero_add k)

theorem isSome_endIndex? (layout : Layout source) {t : Token} (ht : t ∈ layout.tokens) :
    (t.endIndex? source).isSome := by
  obtain ⟨m, hm, -⟩ := Piece.le_endIndex?_of_mem_tokens layout.text_eq ht
  rw [hm]
  rfl

end Layout

/-- Two texts with the same first `k` characters have the same tokens before the index `k`, in all
their fields, whatever follows. Every token but the end of the input has an end to compare. -/
theorem settledTokens_eq_of_take_eq (s t : String) (k : Nat)
    (h : s.toList.take k = t.toList.take k) :
    Reader.settledTokens s.toList k = Reader.settledTokens t.toList k ∧
      ∀ u ∈ (Reader.ofText s.toList).run.tokens, u.kind ≠ .endOfInput →
        (u.endIndex? s.toList).isSome := by
  obtain ⟨layout, hhalts⟩ := Layout.exists_halts s.toList
  obtain ⟨layout', hhalts'⟩ := Layout.exists_halts t.toList
  constructor
  · rw [layout.settledTokens_eq hhalts, layout'.settledTokens_eq hhalts']
    rw [← layout.text_eq, ← layout'.text_eq] at h
    rw [Piece.settled_eq layout.pieces_stand layout.gap_stands hhalts layout'.pieces_stand
      layout'.gap_stands hhalts' h]
  · intro u hu hkind
    apply layout.isSome_endIndex?
    rw [← layout.filter_run_tokens hhalts]
    exact List.mem_filter.2 ⟨hu, decide_eq_true hkind⟩

/-- A number that goes on as a fraction in one text and is cut off at its point in the other, behind
a sign that both texts settle. -/
theorem settledTokens_eq_of_take_eq_sample :
    "甲＝1.5 x".toList.take 4 = "甲＝1.".toList.take 4 ∧
      Reader.settledTokens "甲＝1.5 x".toList 4 = Reader.settledTokens "甲＝1.".toList 4 ∧
      Reader.settledTokens "甲＝1.".toList 4 =
        [⟨.identifier, "甲", 1, 1, ⟨0, 3⟩⟩, ⟨.equals, "＝", 1, 2, ⟨3, 6⟩⟩] := by
  have htake : "甲＝1.5 x".toList.take 4 = "甲＝1.".toList.take 4 := by decide +kernel
  exact ⟨htake, (settledTokens_eq_of_take_eq _ _ 4 htake).1, by decide +kernel⟩

end TwinScript
