import TwinScript.Proofs.Convergence
import TwinScript.Proofs.Displacement

/-!
# Restarting a reader

A reader keeps nothing of what it has passed but its place. So it can be left at any time and a new
reader put in front of the rest of the source: to every further call the new one replies as the old
one would, with places counted from where it was put. `translate` counts them from the beginning of
the source again. The two readers stay in step, call by call.
-/
namespace TwinScript
open Text

/-- The token of a text that begins at the mark, with its place in the whole source. -/
def Token.translate (m : Mark) (t : Token) : Token :=
  { t with
    line := t.line + (m.line - 1)
    column := if t.line = 1 then t.column + (m.column - 1) else t.column
    span := ⟨t.span.start + m.offset, t.span.stop + m.offset⟩ }

def LexError.translate (m : Mark) (e : LexError) : LexError :=
  { e with
    line := e.line + (m.line - 1)
    column := if e.line = 1 then e.column + (m.column - 1) else e.column
    offset := e.offset + m.offset }

namespace Reader

def Reply.map (f : Token → Token) (g : LexError → LexError) : Reply → Reply
  | .token (.ok t) => .token (.ok (f t))
  | .token (.error e) => .token (.error (g e))
  | .tokens (.ok ts) => .tokens (.ok (ts.map f))
  | .tokens (.error e) => .tokens (.error (g e))

def Reply.translate (m : Mark) : Reply → Reply :=
  Reply.map (Token.translate m) (LexError.translate m)

theorem Reply.translate_after (front : List Char) :
    Reply.translate (.after front) = Reply.map (Token.beyond front) (LexError.beyond front) := rfl

section Beyond

variable {source : List Char} {r : Reader}

theorem Within.read_beyond (h : Within source r) (front : List Char) :
    (r.beyond front).read = (replyBeyond front r.read.1, r.read.2.beyond front) := by
  obtain ⟨before, rest, finished, -, -⟩ := h
  obtain ⟨result, r', hstep⟩ := exists_step before rest finished
  rw [← between_append, (hstep.beyond front).read_eq, hstep.read_eq]

/-- A call behind a further text gives the reply and the reader of the same call without it,
displaced. -/
theorem Within.call_beyond (h : Within source r) (front : List Char) (call : Call) :
    (r.beyond front).call call =
      ((r.call call).1.map (Token.beyond front) (LexError.beyond front),
        (r.call call).2.beyond front) := by
  cases call with
  | read =>
      simp only [Reader.call, h.read_beyond front]
      cases r.read.1 <;> rfl
  | readAll =>
      obtain ⟨before, rest, finished, -, -⟩ := h
      simp only [Reader.call, readAll_eq_run, run_beyond, Run.beyond]
      cases (between before rest finished).run.error <;> rfl

theorem Within.replies_beyond (h : Within source r) (front : List Char) (calls : List Call) :
    (r.beyond front).replies calls =
      (r.replies calls).map (Reply.map (Token.beyond front) (LexError.beyond front)) := by
  induction calls generalizing r with
  | nil => rfl
  | cons call calls ih =>
      rw [replies, replies, h.call_beyond front, List.map_cons]
      exact congrArg _ (ih (h.call call))

/-- A reader in the source is a new reader of what is left, displaced by what it has passed. -/
theorem Within.eq_beyond (h : Within source r) (hr : r.finished = false) :
    ∃ front rest, front ++ rest = source ∧ r.cursor.mark = .after front ∧
      r = (ofText rest).beyond front := by
  obtain ⟨before, rest, finished, htext, -⟩ := h
  rw [finished_between] at hr
  subst hr
  refine ⟨before, rest, htext, rfl, ?_⟩
  rw [ofText_eq_between, ← between_append, List.append_nil]

end Beyond
end Reader

/-- As long as the end of the input has not been delivered, a reader replies to all further calls as
a new reader of the rest of the source does, with the new reader's places translated. -/
theorem replies_eq_restarted (s : String) (calls later : List Reader.Call)
    (h : ∀ result ∈ (Reader.ofText s.toList).results calls, Reader.isEnd result = false) :
    let r := (Reader.ofText s.toList).after calls
    r.replies later = ((Reader.ofText (s.toList.drop r.position)).replies later).map
      (Reader.Reply.translate r.cursor.mark) := by
  intro r
  have hwithin : Reader.Within s.toList r := Reader.within_after s.toList calls
  have hfinished : r.finished = false := by
    have hnone : ((Reader.ofText s.toList).results calls).countP Reader.isEnd = 0 :=
      List.countP_eq_zero.2 fun result hresult => Bool.eq_false_iff.1 (h result hresult)
    rw [Reader.count_isEnd_session] at hnone
    exact Bool.toNat_eq_zero.1 hnone
  obtain ⟨front, rest, htext, hmark, hr⟩ := hwithin.eq_beyond hfinished
  have hdrop : s.toList.drop r.position = rest := by
    rw [Reader.position, hmark, ← htext]
    exact List.drop_left
  rw [hdrop, hmark, hr, (Reader.within_ofText rest).replies_beyond front,
    Reader.Reply.translate_after]

/-- Behind an error in a line of wide characters, with a token, an error on that line and a token
of the next line still to come. -/
theorem replies_eq_restarted_sample :
    let r := (Reader.ofText "あ １.。'\n x".toList).after [.readAll, .read]
    r.cursor.mark = ⟨4, 8, 1, 5⟩ ∧ "あ １.。'\n x".toList.drop 4 = "。'\n x".toList ∧
      r.replies [.read, .read, .readAll] =
        ((Reader.ofText "。'\n x".toList).replies [.read, .read, .readAll]).map
          (Reader.Reply.translate ⟨4, 8, 1, 5⟩) := by
  intro r
  have hmark : r.cursor.mark = ⟨4, 8, 1, 5⟩ := by decide +kernel
  have hdrop : "あ １.。'\n x".toList.drop 4 = "。'\n x".toList := by decide +kernel
  have hreplies : r.replies [.read, .read, .readAll] =
      ((Reader.ofText ("あ １.。'\n x".toList.drop r.position)).replies
        [.read, .read, .readAll]).map (Reader.Reply.translate r.cursor.mark) :=
    replies_eq_restarted "あ １.。'\n x" [.readAll, .read] [.read, .read, .readAll]
      (by decide +kernel)
  rw [Reader.position, hmark] at hreplies
  rw [hdrop] at hreplies
  exact ⟨hmark, hdrop, hreplies⟩

end TwinScript
