import Mathlib.Data.List.Basic

/-!
# Splitting a line into words

A line is a list of symbols, some of which separate words. A word that starts
with a mark goes on to the next mark and may hold anything else; any other word
goes on to the next separator. A line that is put together from words without
separators and marks splits into these words again.
-/
namespace NetdataPlugins.Words
variable {α : Type*} [DecidableEq α] (isBlank : α → Bool) (mark : α)

/-- Where a reader of a line is, with what it has of the current word. -/
inductive Reading (α : Type*) where
  | gap
  | bare (w : List α)
  | quoted (w : List α)

def wordsFrom : Reading α → List α → List (List α)
  | .gap, [] => []
  | .gap, c :: s =>
      if isBlank c then wordsFrom .gap s
      else if c = mark then wordsFrom (.quoted []) s
      else wordsFrom (.bare [c]) s
  | .bare w, [] => [w]
  | .bare w, c :: s =>
      if isBlank c then w :: wordsFrom .gap s else wordsFrom (.bare (w ++ [c])) s
  | .quoted w, [] => [w]
  | .quoted w, c :: s =>
      if c = mark then w :: wordsFrom .gap s else wordsFrom (.quoted (w ++ [c])) s

def words (s : List α) : List (List α) := wordsFrom isBlank mark .gap s

/-- A text that is a word without marks around it. -/
def Plain (w : List α) : Prop := w ≠ [] ∧ ∀ c ∈ w, isBlank c = false ∧ c ≠ mark

instance (w : List α) : Decidable (Plain isBlank mark w) := inferInstanceAs (Decidable (_ ∧ _))

/-- A word as it is written on a line. -/
inductive Token (α : Type*) where
  | bare (w : List α)
  | quoted (w : List α)

def Token.value : Token α → List α
  | .bare w => w
  | .quoted w => w

def Token.text : Token α → List α
  | .bare w => w
  | .quoted w => mark :: w ++ [mark]

/-- A word that can be written so. -/
def Token.Writable : Token α → Prop
  | .bare w => Plain isBlank mark w
  | .quoted w => mark ∉ w

/-- The words with a separator between each two. -/
def render (sep : α) : List (Token α) → List α
  | [] => []
  | [t] => t.text mark
  | t :: ts => t.text mark ++ sep :: render sep ts

variable {isBlank mark}

theorem wordsFrom_bare {w : List α} (hw : ∀ c ∈ w, isBlank c = false) (a s : List α) :
    wordsFrom isBlank mark (.bare a) (w ++ s) = wordsFrom isBlank mark (.bare (a ++ w)) s := by
  induction w generalizing a with
  | nil => simp
  | cons c w ih =>
      have hc := hw c List.mem_cons_self
      rw [List.cons_append, wordsFrom, if_neg (by simp [hc]),
        ih fun d hd => hw d (List.mem_cons_of_mem c hd)]
      simp

theorem wordsFrom_quoted {w : List α} (hw : mark ∉ w) (a s : List α) :
    wordsFrom isBlank mark (.quoted a) (w ++ mark :: s) =
      (a ++ w) :: wordsFrom isBlank mark .gap s := by
  induction w generalizing a with
  | nil => simp [wordsFrom]
  | cons c w ih =>
      simp only [List.mem_cons, not_or] at hw
      rw [List.cons_append, wordsFrom, if_neg (Ne.symm hw.1), ih hw.2]
      simp

/-- A bare word needs a separator behind it, or the end of the line. -/
theorem words_token {t : Token α} (ht : t.Writable isBlank mark) (hmark : isBlank mark = false)
    {s : List α} (hs : s = [] ∨ ∃ sep r, s = sep :: r ∧ isBlank sep = true) :
    words isBlank mark (t.text mark ++ s) = t.value :: words isBlank mark s := by
  cases t with
  | bare w =>
      obtain ⟨hne, hw⟩ := ht
      obtain ⟨c, w, rfl⟩ := List.exists_cons_of_ne_nil hne
      obtain ⟨hblank, hc⟩ := hw c List.mem_cons_self
      have hstart : words isBlank mark (c :: w ++ s) =
          wordsFrom isBlank mark (.bare (c :: w)) s := by
        rw [words, List.cons_append, wordsFrom, if_neg (by simp [hblank]), if_neg hc,
          wordsFrom_bare fun d hd => (hw d (List.mem_cons_of_mem c hd)).1]
        rfl
      rw [Token.text, hstart, Token.value]
      rcases hs with rfl | ⟨sep, r, rfl, hsep⟩
      · rfl
      · simp [words, wordsFrom, hsep]
  | quoted w =>
      rw [Token.text, List.cons_append, words, List.cons_append, wordsFrom,
        if_neg (by simp [hmark]), if_pos rfl, List.append_assoc, List.singleton_append,
        wordsFrom_quoted ht]
      rfl

/-- A line that is put together from words splits into them. -/
theorem words_render {sep : α} (hsep : isBlank sep = true) (hmark : isBlank mark = false)
    {ts : List (Token α)} (hts : ∀ t ∈ ts, t.Writable isBlank mark) :
    words isBlank mark (render mark sep ts) = ts.map Token.value := by
  induction ts with
  | nil => rfl
  | cons t ts ih =>
      have ht := hts t List.mem_cons_self
      have hrest := ih fun u hu => hts u (List.mem_cons_of_mem t hu)
      cases ts with
      | nil => simpa [render, words, wordsFrom] using words_token ht hmark (.inl rfl)
      | cons u ts =>
          have hskip : words isBlank mark (sep :: render mark sep (u :: ts)) =
              words isBlank mark (render mark sep (u :: ts)) := by
            rw [words, wordsFrom, if_pos hsep]
            rfl
          rw [render, words_token ht hmark (.inr ⟨sep, _, rfl, hsep⟩), hskip, hrest]
          · rfl
          · simp

end NetdataPlugins.Words
