/-!
# Texts measured in bytes

Positions in a text are byte offsets into its UTF-8 form. A text can be cut only where a character
ends, and `cut?_eq_some_iff` says that a cut is exactly a decomposition into two parts whose first
part has the wanted size.
-/
namespace TwinScript.Text

def byteSize : List Char → Nat
  | [] => 0
  | c :: cs => c.utf8Size + byteSize cs

@[simp] theorem byteSize_nil : byteSize [] = 0 := rfl

@[simp] theorem byteSize_cons (c : Char) (cs : List Char) :
    byteSize (c :: cs) = c.utf8Size + byteSize cs := rfl

@[simp] theorem byteSize_append (as bs : List Char) :
    byteSize (as ++ bs) = byteSize as + byteSize bs := by
  induction as with
  | nil => simp
  | cons a as ih => simp [ih, Nat.add_assoc]

theorem byteSize_eq_zero_iff {cs : List Char} : byteSize cs = 0 ↔ cs = [] := by
  cases cs with
  | nil => simp
  | cons c cs =>
    have := c.utf8Size_pos
    simp
    omega

/-- The two parts of a text around a byte offset; none when the offset lies past the end or inside
a character. -/
def cut? : Nat → List Char → Option (List Char × List Char)
  | 0, cs => some ([], cs)
  | _ + 1, [] => none
  | n + 1, c :: cs =>
    if c.utf8Size ≤ n + 1 then
      (cut? (n + 1 - c.utf8Size) cs).map fun (before, after) => (c :: before, after)
    else none

@[simp] theorem cut?_zero (cs : List Char) : cut? 0 cs = some ([], cs) := by
  cases cs <;> rfl

theorem cut?_byteSize_append (as bs : List Char) :
    cut? (byteSize as) (as ++ bs) = some (as, bs) := by
  induction as with
  | nil => simp
  | cons a as ih =>
    obtain ⟨k, hk⟩ : ∃ k, a.utf8Size + byteSize as = k + 1 :=
      ⟨a.utf8Size + byteSize as - 1, by have := a.utf8Size_pos; omega⟩
    have hle : a.utf8Size ≤ k + 1 := by omega
    have hsub : k + 1 - a.utf8Size = byteSize as := by omega
    simp only [byteSize_cons, hk, List.cons_append, cut?, if_pos hle, hsub, ih]
    rfl

theorem cut?_eq_some_iff {n : Nat} {cs as bs : List Char} :
    cut? n cs = some (as, bs) ↔ cs = as ++ bs ∧ byteSize as = n := by
  constructor
  · intro h
    fun_induction cut? n cs generalizing as bs with
    | case1 cs =>
      simp only [Option.some.injEq, Prod.mk.injEq] at h
      obtain ⟨rfl, rfl⟩ := h
      simp
    | case2 => simp at h
    | case3 n c cs hle ih =>
      obtain ⟨⟨before, after⟩, hcut, heq⟩ := Option.map_eq_some_iff.1 h
      simp only [Prod.mk.injEq] at heq
      obtain ⟨rfl, rfl⟩ := heq
      obtain ⟨rfl, hsize⟩ := ih hcut
      refine ⟨rfl, ?_⟩
      simp only [byteSize_cons, hsize]
      omega
    | case4 => simp at h
  · rintro ⟨rfl, rfl⟩
    exact cut?_byteSize_append as bs

/-- The part of a text between two byte offsets; none unless both are ends of characters and the
first is not past the second. -/
def slice? (start stop : Nat) (cs : List Char) : Option (List Char) :=
  if start ≤ stop then
    (cut? start cs).bind fun (_, after) => (cut? (stop - start) after).map Prod.fst
  else none

theorem slice?_append (as bs cs : List Char) :
    slice? (byteSize as) (byteSize as + byteSize bs) (as ++ bs ++ cs) = some bs := by
  rw [slice?, if_pos (Nat.le_add_right _ _), List.append_assoc, cut?_byteSize_append]
  simp [cut?_byteSize_append]

theorem le_of_slice? {start stop : Nat} {cs part : List Char}
    (h : slice? start stop cs = some part) : start ≤ stop := by
  unfold slice? at h
  split at h
  · assumption
  · cases h

def ofBytes? (bytes : List UInt8) : Option String :=
  String.fromUTF8? bytes.toByteArray

end TwinScript.Text
