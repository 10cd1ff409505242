import NetdataPlugins.LineSplit
import NetdataPlugins.PrintedLines

/-!
# The text on stdout (netdata.c)

A command is one line, with an empty line before CHART and BEGIN. A reader takes
the finished lines that are not empty, splits each into its words and finds the
command again, if the ids are words and no text has a quote or a line feed.
-/
namespace NetdataPlugins.PrintedText
open MemoryBlock CString Netdata Words PrintedLines LineSplit

/-! ### Lines -/

section Lines
variable {α : Type*} [DecidableEq α] {sep : α}

/-- Each segment with a separator behind it. -/
def joined (sep : α) (segs : List (List α)) : List α := segs.flatMap fun s => s ++ [sep]

theorem split_joined {segs : List (List α)} (h : ∀ s ∈ segs, sep ∉ s) :
    split sep (joined sep segs) = (segs, []) := by
  induction segs with
  | nil => rfl
  | cons s segs ih =>
      rw [joined, List.flatMap_cons, List.append_assoc, List.singleton_append,
        split_close (h s List.mem_cons_self)]
      have hrest := ih fun t ht => h t (List.mem_cons_of_mem _ ht)
      rw [joined] at hrest
      rw [hrest]

theorem split_fst_mono {s t : List α} (h : s <+: t) :
    (split sep s).1 <+: (split sep t).1 := by
  obtain ⟨r, rfl⟩ := h
  rw [split_append]
  exact List.prefix_append _ _

end Lines

/-! ### Printing -/

def lineFeed : UInt8 := 10

def chartTypeText : ChartType → Bytes
  | .line => lit "line"
  | .area => lit "area"
  | .stacked => lit "stacked"

/-- What the function of netdata.c prints. -/
def printed : Command → Bytes
  | .chart id name title units family context type =>
      lineFeed :: lit "CHART " ++ id ++ lit " '" ++ name ++ lit "' '" ++ title ++ lit "' '" ++
        units ++ lit "' '" ++ family ++ lit "' '" ++ context ++ lit "' " ++ chartTypeText type ++
        [lineFeed]
  | .dimension id name alg multiplier divisor vis =>
      lit "DIMENSION " ++ id ++ lit " '" ++ name ++ lit "' " ++ algorithmText alg ++ lit " " ++
        decimal multiplier ++ lit " " ++ decimal divisor ++
        (if vis = .hidden then lit " hidden" else []) ++ [lineFeed]
  | .begin id none => lineFeed :: lit "BEGIN " ++ id ++ [lineFeed]
  | .begin id (some time) => lineFeed :: lit "BEGIN " ++ id ++ lit " " ++ decimal time ++ [lineFeed]
  | .set name value => lit "SET " ++ name ++ lit " = " ++ decimal value ++ [lineFeed]
  | .close => lit "END" ++ [lineFeed]

def outputText (out : List Command) : Bytes := out.flatMap printed

/-- The words of a command. -/
def fields : Command → List (Token UInt8)
  | .chart id name title units family context type =>
      [.bare (lit "CHART"), .bare id, .quoted name, .quoted title, .quoted units, .quoted family,
        .quoted context, .bare (chartTypeText type)]
  | .begin id none => [.bare (lit "BEGIN"), .bare id]
  | .begin id (some time) => [.bare (lit "BEGIN"), .bare id, .bare (decimal time)]
  | .close => [.bare (lit "END")]
  | .dimension id name alg multiplier divisor vis =>
      tokens (.dimension id name alg multiplier divisor vis)
  | .set name value => tokens (.set name value)

def lineOf (c : Command) : Bytes := render mark 32 (fields c)

/-- The lines of a command; the last one is its own. -/
def segments : Command → List Bytes
  | .chart id name title units family context type =>
      [[], lineOf (.chart id name title units family context type)]
  | .begin id time => [[], lineOf (.begin id time)]
  | c => [lineOf c]

theorem printed_eq (c : Command) : printed c = joined lineFeed (segments c) := by
  cases c with
  | chart id name title units family context type =>
      simp [printed, segments, joined, lineOf, fields, render, Token.text, lit, mark]
  | dimension id name alg multiplier divisor vis =>
      cases vis <;>
        simp [printed, segments, joined, lineOf, fields, tokens, render, Token.text, lit, mark]
  | «begin» id time =>
      cases time <;>
        simp [printed, segments, joined, lineOf, fields, render, Token.text, lit]
  | set name value =>
      simp [printed, segments, joined, lineOf, fields, tokens, render, Token.text, lit]
  | close => rfl

theorem text_eq (out : List Command) : outputText out = joined lineFeed (out.flatMap segments) := by
  simp only [outputText, joined, List.flatMap_assoc]
  exact congrArg (fun f => out.flatMap f) (funext printed_eq)

/-! ### One line for each command -/

/-- The finished lines of a text that are not empty. -/
def outputLines (t : Bytes) : List Bytes := (split lineFeed t).1.filter fun line => line ≠ []

/-- What stands in the command has no line feed. -/
def OneLine (c : Command) : Prop := ∀ t ∈ fields c, lineFeed ∉ t.value

theorem notMem_render {α : Type*} {a mark sep : α} (hmark : a ≠ mark) (hsep : a ≠ sep)
    {ts : List (Token α)} (h : ∀ t ∈ ts, a ∉ t.value) : a ∉ render mark sep ts := by
  have htext (t : Token α) (ht : a ∉ t.value) : a ∉ t.text mark := by
    cases t with
    | bare w => exact ht
    | quoted w =>
        have hw : a ∉ w := ht
        simp [Token.text, hmark, hw]
  induction ts with
  | nil => exact List.not_mem_nil
  | cons t ts ih =>
      have hfirst := htext t (h t List.mem_cons_self)
      have hrest := ih fun u hu => h u (List.mem_cons_of_mem t hu)
      cases ts with
      | nil => exact hfirst
      | cons u ts =>
          rw [render, List.mem_append, List.mem_cons]
          · exact fun hmem => hmem.elim hfirst fun hmem => hmem.elim hsep hrest
          · exact List.cons_ne_nil u ts

theorem OneLine.notMem {c : Command} (h : OneLine c) : lineFeed ∉ lineOf c :=
  notMem_render (by decide) (by decide) h

/-- The first word is there in any case. -/
theorem lineOf_ne_nil (c : Command) : lineOf c ≠ [] := by
  cases c with
  | «begin» id time => cases time <;> simp [lineOf, fields, render, Token.text, lit]
  | _ => simp [lineOf, fields, tokens, render, Token.text, lit]

theorem mem_segments {c : Command} {s : Bytes} (h : s ∈ segments c) : s = [] ∨ s = lineOf c := by
  cases c with
  | chart => simpa [segments] using h
  | «begin» => simpa [segments] using h
  | _ => exact .inr (List.mem_singleton.mp h)

theorem filter_segments (c : Command) :
    ((segments c).filter fun line => line ≠ []) = [lineOf c] := by
  have hline := lineOf_ne_nil c
  cases c <;> simp [segments, hline]

/-- However many commands there are, each of them is one line. -/
theorem lines_text {out : List Command} (h : ∀ c ∈ out, OneLine c) :
    outputLines (outputText out) = out.map lineOf := by
  have hsegments : ∀ s ∈ out.flatMap segments, lineFeed ∉ s := by
    intro s hs
    obtain ⟨c, hc, hs⟩ := List.mem_flatMap.mp hs
    rcases mem_segments hs with rfl | rfl
    · exact List.not_mem_nil
    · exact (h c hc).notMem
  rw [outputLines, text_eq, split_joined hsegments, List.filter_flatMap,
    List.map_eq_flatMap]
  exact congrArg (fun f => out.flatMap f) (funext filter_segments)

theorem lines_mono {s t : Bytes} (h : s <+: t) : outputLines s <+: outputLines t :=
  (split_fst_mono h).filter _

/-! ### Numbers -/

def isDigit (c : UInt8) : Bool := 48 ≤ c.toNat && c.toNat ≤ 57

def natural (s : Bytes) : Option ℕ :=
  if s ≠ [] ∧ s.all isDigit = true then
    some (Nat.ofDigitChars 10 (s.map fun c => Char.ofNat c.toNat) 0)
  else none

def number (s : Bytes) : Option ℤ :=
  if s.head? = some 45 then (natural s.tail).map fun n : ℕ => -(n : ℤ)
  else (natural s).map fun n : ℕ => (n : ℤ)

/-- The digits of a number. -/
def digitsText (n : ℕ) : Bytes := (Nat.toDigits 10 n).map fun c => UInt8.ofNat c.toNat

theorem digit_range {n : ℕ} {d : Char} (hd : d ∈ Nat.toDigits 10 n) :
    48 ≤ d.toNat ∧ d.toNat ≤ 57 := by
  simpa [Char.isDigit, UInt32.le_iff_toNat_le] using
    Nat.isDigit_of_mem_toDigits (by decide) (by decide) hd

theorem toNat_ofNat_digit {n : ℕ} {d : Char} (hd : d ∈ Nat.toDigits 10 n) :
    (UInt8.ofNat d.toNat).toNat = d.toNat := by
  have hrange := digit_range hd
  exact UInt8.toNat_ofNat_of_lt' (hrange.2.trans_lt (by decide))

theorem natural_digitsText (n : ℕ) : natural (digitsText n) = some n := by
  have hne : digitsText n ≠ [] := by simp [digitsText, Nat.toDigits_ne_nil]
  have hall : (digitsText n).all isDigit = true := by
    rw [digitsText, List.all_map, List.all_eq_true]
    intro d hd
    simpa [isDigit, toNat_ofNat_digit hd] using digit_range hd
  have hback : (digitsText n).map (fun c => Char.ofNat c.toNat) = Nat.toDigits 10 n := by
    rw [digitsText, List.map_map]
    refine (List.map_congr_left fun d hd => ?_).trans (List.map_id _)
    simp [toNat_ofNat_digit hd]
  rw [natural, if_pos ⟨hne, hall⟩, hback, Nat.ofDigitChars_ten_toDigits]

theorem decimal_eq (z : ℤ) :
    decimal z = if z < 0 then 45 :: digitsText z.natAbs else digitsText z.natAbs := by
  rw [decimal]
  split_ifs <;> rfl

theorem number_decimal (z : ℤ) : number (decimal z) = some z := by
  rw [decimal_eq]
  split_ifs with h
  · have hneg : -(z.natAbs : ℤ) = z := by omega
    rw [number, List.head?_cons, if_pos rfl, List.tail_cons, natural_digitsText, Option.map_some,
      hneg]
  · have hpos : (z.natAbs : ℤ) = z := by omega
    have hhead : (digitsText z.natAbs).head? ≠ some 45 := by
      intro hhead
      obtain ⟨d, hd, heq⟩ := List.mem_map.mp (List.mem_of_mem_head? hhead)
      have hrange := digit_range hd
      rw [← toNat_ofNat_digit hd, heq] at hrange
      exact absurd hrange.1 (by decide)
    rw [number, if_neg hhead, natural_digitsText, Option.map_some, hpos]

theorem natural_decimal (n : ℕ) : natural (decimal n) = some n := by
  rw [decimal_eq, if_neg (by omega), Int.natAbs_natCast, natural_digitsText]

theorem lineFeed_notMem_decimal (z : ℤ) : lineFeed ∉ decimal z := by
  have hdigits (n : ℕ) : lineFeed ∉ digitsText n := by
    intro h
    obtain ⟨d, hd, heq⟩ := List.mem_map.mp h
    have hrange := digit_range hd
    rw [← toNat_ofNat_digit hd, heq] at hrange
    exact absurd hrange.1 (by decide)
  rw [decimal_eq]
  split_ifs
  · exact fun h => (List.mem_cons.mp h).elim (by decide) (hdigits _)
  · exact hdigits _

/-! ### Reading -/

def readAlgorithm (s : Bytes) : Option Algorithm :=
  [.absolute, .incremental, .percentageOfAbsoluteRow, .percentageOfIncrementalRow].find?
    fun a => algorithmText a = s

def readChartType (s : Bytes) : Option ChartType :=
  [.line, .area, .stacked].find? fun t => chartTypeText t = s

def readVisibility : List Bytes → Option Visibility
  | [] => some .visible
  | [s] => if s = lit "hidden" then some .hidden else none
  | _ => none

/-- The command that a line of these words stands for. -/
def readCommand : List Bytes → Option Command
  | [] => none
  | keyword :: args =>
      if keyword = lit "CHART" then
        match args with
        | [id, name, title, units, family, context, type] =>
            (readChartType type).map (.chart id name title units family context)
        | _ => none
      else if keyword = lit "DIMENSION" then
        match args with
        | id :: name :: alg :: multiplier :: divisor :: rest => do
            let alg ← readAlgorithm alg
            let multiplier ← number multiplier
            let divisor ← number divisor
            let vis ← readVisibility rest
            pure (.dimension id name alg multiplier divisor vis)
        | _ => none
      else if keyword = lit "BEGIN" then
        match args with
        | [id] => some (.begin id none)
        | [id, time] => (natural time).map fun time => .begin id (some time)
        | _ => none
      else if keyword = lit "SET" then
        match args with
        | [name, sign, value] => if sign = lit "=" then (number value).map (.set name) else none
        | _ => none
      else if keyword = lit "END" then
        if args = [] then some .close else none
      else none

/-- What a reader has understood when it has got this part of the output. -/
def read (t : Bytes) : Option (List Command) :=
  (outputLines t).mapM fun line => readCommand (words isBlank mark line)

theorem readAlgorithm_text (alg : Algorithm) : readAlgorithm (algorithmText alg) = some alg := by
  cases alg <;> decide

theorem readChartType_text (type : ChartType) :
    readChartType (chartTypeText type) = some type := by
  cases type <;> decide

theorem readCommand_fields (c : Command) : readCommand ((fields c).map Token.value) = some c := by
  have hkeywords : lit "DIMENSION" ≠ lit "CHART" ∧ lit "BEGIN" ≠ lit "CHART" ∧
      lit "BEGIN" ≠ lit "DIMENSION" ∧ lit "SET" ≠ lit "CHART" ∧ lit "SET" ≠ lit "DIMENSION" ∧
      lit "SET" ≠ lit "BEGIN" ∧ lit "END" ≠ lit "CHART" ∧ lit "END" ≠ lit "DIMENSION" ∧
      lit "END" ≠ lit "BEGIN" ∧ lit "END" ≠ lit "SET" := by decide
  cases c with
  | chart id name title units family context type =>
      simp [fields, Token.value, readCommand, readChartType_text]
  | dimension id name alg multiplier divisor vis =>
      cases vis <;> simp [fields, tokens, Token.value, readCommand, hkeywords,
        readAlgorithm_text, number_decimal, readVisibility]
  | «begin» id time =>
      cases time <;> simp [fields, Token.value, readCommand, hkeywords, natural_decimal]
  | set name value =>
      simp [fields, tokens, Token.value, readCommand, hkeywords, number_decimal]
  | close => simp [fields, Token.value, readCommand, hkeywords]

instance (t : Token UInt8) : Decidable (t.Writable isBlank mark) :=
  match t with
  | .bare w => inferInstanceAs (Decidable (Plain isBlank mark w))
  | .quoted w => inferInstanceAs (Decidable (mark ∉ w))

/-- A word that is read as it is meant. -/
def Readable (t : Token UInt8) : Prop := t.Writable isBlank mark ∧ lineFeed ∉ t.value

instance (t : Token UInt8) : Decidable (Readable t) := inferInstanceAs (Decidable (_ ∧ _))

theorem readCommand_lineOf {c : Command} (h : ∀ t ∈ fields c, Readable t) :
    readCommand (words isBlank mark (lineOf c)) = some c := by
  have hwords : words isBlank mark (lineOf c) = (fields c).map Token.value :=
    words_render rfl rfl fun t ht => (h t ht).1
  rw [hwords, readCommand_fields]

/-- Any part of the output that has come is read as its first commands, and the
whole of it as all of them. -/
def ReadsBack (out : List Command) : Prop :=
  read (outputText out) = some out ∧ ∀ t, t <+: outputText out → ∃ k, read t = some (out.take k)

theorem mapM_lineOf {out : List Command} (h : ∀ c ∈ out, ∀ t ∈ fields c, Readable t) :
    (out.map lineOf).mapM (fun line => readCommand (words isBlank mark line)) = some out := by
  induction out with
  | nil => rfl
  | cons c out ih =>
      rw [List.map_cons, List.mapM_cons, readCommand_lineOf (h c List.mem_cons_self),
        ih fun d hd => h d (List.mem_cons_of_mem c hd)]
      rfl

theorem readsBack_of_readable {out : List Command} (h : ∀ c ∈ out, ∀ t ∈ fields c, Readable t) :
    ReadsBack out := by
  have hlines : outputLines (outputText out) = out.map lineOf :=
    lines_text fun c hc t ht => (h c hc t ht).2
  refine ⟨by rw [read, hlines, mapM_lineOf h], fun t ht => ?_⟩
  have hprefix := lines_mono ht
  rw [hlines] at hprefix
  obtain ⟨k, hk⟩ : ∃ k, outputLines t = (out.take k).map lineOf :=
    ⟨(outputLines t).length, List.map_take ▸ List.prefix_iff_eq_take.mp hprefix⟩
  refine ⟨k, ?_⟩
  rw [read, hk]
  exact mapM_lineOf fun c hc => h c (List.mem_of_mem_take hc)

end NetdataPlugins.PrintedText
