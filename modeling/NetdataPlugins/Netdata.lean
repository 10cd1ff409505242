import NetdataPlugins.CString

/-!
# The output of netdata.c

A plugin talks to the collector in lines. `Command` has one form for each line,
with the texts that `printf` puts into it; a possibly NULL string is an option.

The second part is the collector's view: a SET belongs to the chart of the last
BEGIN, up to the next END.
-/
namespace NetdataPlugins.Netdata
open MemoryBlock CString

inductive Algorithm where
  | absolute | incremental | percentageOfAbsoluteRow | percentageOfIncrementalRow
  deriving DecidableEq, Repr

inductive ChartType where
  | line | area | stacked
  deriving DecidableEq, Repr

inductive Visibility where
  | visible | hidden
  deriving DecidableEq, Repr

inductive Command where
  | chart (id name title units family context : Bytes) (type : ChartType)
  | dimension (id name : Bytes) (alg : Algorithm) (multiplier divisor : ℤ) (vis : Visibility)
  | begin (id : Bytes) (time : Option ℕ)
  | set (name : Bytes) (value : ℤ)
  | close
  deriving DecidableEq, Repr

def checkNull (str : Option Bytes) : Bytes := str.getD []

def printTypePrefixId (type : Bytes) (pre id : Option Bytes) : Bytes :=
  match id with
  | some id => type ++ lit "." ++ checkNull pre ++ lit "_" ++ id
  | none => type ++ lit "." ++ checkNull pre

def ndChart (type : Bytes) (pre id name title units family context : Option Bytes)
    (chartType : ChartType) : Command :=
  .chart (printTypePrefixId type pre id) (checkNull name) (checkNull title) (checkNull units)
    (checkNull family) (checkNull context) chartType

def ndDimension (id : Bytes) (name : Option Bytes) (alg : Algorithm) (multiplier divisor : ℤ)
    (vis : Visibility) : Command :=
  .dimension id (checkNull name) alg multiplier divisor vis

/-- Everything below 10 ms is ignored. -/
def ndBeginTime (type : Bytes) (pre id : Option Bytes) (time : ℕ) : Command :=
  .begin (printTypePrefixId type pre id) (if time > 10000 then some time else none)

def ndEnd : Command := .close

def ndSet (name : Bytes) (value : ℤ) : Command := .set name value

/-- One value, as the collector stores it. -/
structure Sample where
  chart : Bytes
  dimension : Bytes
  value : ℤ
  deriving DecidableEq, Repr

/-- The chart open after some output. -/
def openChart : Option Bytes → List Command → Option Bytes
  | cur, [] => cur
  | _, .begin id _ :: out => openChart (some id) out
  | _, .close :: out => openChart none out
  | cur, _ :: out => openChart cur out

def collect : Option Bytes → List Command → List Sample
  | _, [] => []
  | _, .begin id _ :: out => collect (some id) out
  | _, .close :: out => collect none out
  | some id, .set name value :: out => ⟨id, name, value⟩ :: collect (some id) out
  | cur, _ :: out => collect cur out

/-- The values reported for one chart, in order, by dimension. -/
def reported (chart : Bytes) (out : List Command) : List (Bytes × ℤ) :=
  (collect none out).filterMap fun s =>
    if s.chart = chart then some (s.dimension, s.value) else none

/-- The values reported for one dimension of one chart. -/
def values (chart dimension : Bytes) (out : List Command) : List ℤ :=
  (reported chart out).filterMap fun r => if r.1 = dimension then some r.2 else none

/-- The intervals announced on the BEGIN lines of a chart, in microseconds. -/
def announced (chart : Bytes) (out : List Command) : List ℕ :=
  out.filterMap fun
    | .begin id time => if id = chart then time else none
    | _ => none

/-- The charts that BEGIN lines name. -/
def begun (out : List Command) : List Bytes :=
  out.filterMap fun
    | .begin id _ => some id
    | _ => none

/-- The charts that CHART lines define. -/
def defined (out : List Command) : List Bytes :=
  out.filterMap fun
    | .chart id _ _ _ _ _ _ => some id
    | _ => none

theorem collect_append (cur : Option Bytes) (a b : List Command) :
    collect cur (a ++ b) = collect cur a ++ collect (openChart cur a) b := by
  induction a generalizing cur with
  | nil => rfl
  | cons c a ih => cases c <;> cases cur <;> simp [collect, openChart, ih]

theorem openChart_append (cur : Option Bytes) (a b : List Command) :
    openChart cur (a ++ b) = openChart (openChart cur a) b := by
  induction a generalizing cur with
  | nil => rfl
  | cons c a ih => cases c <;> simp [openChart, ih]

/-- Output that leaves no chart open. -/
def Closed (out : List Command) : Prop := openChart none out = none

theorem Closed.append {a b : List Command} (ha : Closed a) (hb : Closed b) : Closed (a ++ b) := by
  unfold Closed at *
  rw [openChart_append, ha, hb]

theorem Closed.reported_append {a : List Command} (ha : Closed a) (chart : Bytes)
    (b : List Command) : reported chart (a ++ b) = reported chart a ++ reported chart b := by
  rw [reported, collect_append, show openChart none a = none from ha, List.filterMap_append]
  rfl

theorem Closed.values_append {a : List Command} (ha : Closed a) (chart dimension : Bytes)
    (b : List Command) :
    values chart dimension (a ++ b) = values chart dimension a ++ values chart dimension b := by
  rw [values, ha.reported_append, List.filterMap_append]
  rfl

theorem closed_nil : Closed [] := rfl

theorem closed_flatMap {α : Type*} {f : α → List Command} (xs : List α)
    (h : ∀ x, Closed (f x)) : Closed (xs.flatMap f) := by
  induction xs with
  | nil => exact closed_nil
  | cons x xs ih => exact (h x).append ih

theorem reported_flatMap {α : Type*} {f : α → List Command} (xs : List α)
    (h : ∀ x, Closed (f x)) (chart : Bytes) :
    reported chart (xs.flatMap f) = xs.flatMap fun x => reported chart (f x) := by
  induction xs with
  | nil => rfl
  | cons x xs ih => rw [List.flatMap_cons, (h x).reported_append, ih, List.flatMap_cons]

theorem announced_flatMap {α : Type*} (f : α → List Command) (xs : List α) (chart : Bytes) :
    announced chart (xs.flatMap f) = xs.flatMap fun x => announced chart (f x) :=
  List.filterMap_flatMap

theorem announced_append (chart : Bytes) (a b : List Command) :
    announced chart (a ++ b) = announced chart a ++ announced chart b :=
  List.filterMap_append

theorem begun_append (a b : List Command) : begun (a ++ b) = begun a ++ begun b :=
  List.filterMap_append

theorem defined_append (a b : List Command) : defined (a ++ b) = defined a ++ defined b :=
  List.filterMap_append

/-- One BEGIN, a SET for each pair, and END. -/
def block (start : Command) (sets : List (Bytes × ℤ)) : List Command :=
  start :: sets.map (fun s => ndSet s.1 s.2) ++ [ndEnd]

theorem collect_sets (id : Bytes) (sets : List (Bytes × ℤ)) :
    collect (some id) (sets.map fun s => ndSet s.1 s.2) =
      sets.map fun s => ⟨id, s.1, s.2⟩ := by
  induction sets with
  | nil => rfl
  | cons s sets ih => simpa [collect, ndSet] using ih

theorem block_closed (id : Bytes) (time : Option ℕ) (sets : List (Bytes × ℤ)) :
    Closed (block (.begin id time) sets) := by
  simp [Closed, block, openChart_append, openChart, ndEnd]

theorem reported_block (chart id : Bytes) (time : Option ℕ) (sets : List (Bytes × ℤ)) :
    reported chart (block (.begin id time) sets) = if id = chart then sets else [] := by
  have hcollect : collect none (block (.begin id time) sets) =
      sets.map fun s => ⟨id, s.1, s.2⟩ := by
    simp [block, collect, collect_append, collect_sets, ndEnd]
  rw [reported, hcollect]
  split_ifs with h <;> simp [h, List.filterMap_map]

theorem announced_block (chart id : Bytes) (time : Option ℕ) (sets : List (Bytes × ℤ)) :
    announced chart (block (.begin id time) sets) =
      if id = chart then time.toList else [] := by
  by_cases h : id = chart <;> cases time <;> simp [block, announced, ndSet, ndEnd, h]

theorem begun_block (id : Bytes) (time : Option ℕ) (sets : List (Bytes × ℤ)) :
    begun (block (.begin id time) sets) = [id] := by
  simp [block, begun, ndSet, ndEnd]

theorem defined_block (id : Bytes) (time : Option ℕ) (sets : List (Bytes × ℤ)) :
    defined (block (.begin id time) sets) = [] := by
  simp [block, defined, ndSet, ndEnd]

/-! ### Output that does not touch a chart -/

/-- Closed output in which no BEGIN names the chart. -/
def Silent (chart : Bytes) (out : List Command) : Prop := Closed out ∧ chart ∉ begun out

theorem mem_collect {cur : Option Bytes} {out : List Command} {s : Sample}
    (h : s ∈ collect cur out) : cur = some s.chart ∨ s.chart ∈ begun out := by
  induction out generalizing cur with
  | nil => cases h
  | cons c out ih =>
      have hcons : begun (c :: out) = begun [c] ++ begun out := begun_append [c] out
      rw [hcons, List.mem_append]
      cases c with
      | begin id time =>
          replace h : s ∈ collect (some id) out := h
          rcases ih h with hid | hout
          · cases hid
            exact .inr (.inl (by simp [begun]))
          · exact .inr (.inr hout)
      | set name value =>
          cases cur with
          | none =>
              replace h : s ∈ collect none out := h
              rcases ih h with hid | hout
              · cases hid
              · exact .inr (.inr hout)
          | some id =>
              rcases List.mem_cons.mp h with rfl | h
              · exact .inl rfl
              · exact (ih h).imp_right .inr
      | close =>
          replace h : s ∈ collect none out := h
          rcases ih h with hid | hout
          · cases hid
          · exact .inr (.inr hout)
      | chart => exact (ih (by cases cur <;> exact h)).imp_right .inr
      | dimension => exact (ih (by cases cur <;> exact h)).imp_right .inr

theorem reported_eq_nil {chart : Bytes} {out : List Command} (h : chart ∉ begun out) :
    reported chart out = [] := by
  apply List.filterMap_eq_nil_iff.mpr
  intro s hs
  rcases mem_collect hs with hid | hout
  · cases hid
  · have hne : s.chart ≠ chart := fun heq => h (heq ▸ hout)
    simp [hne]

theorem Silent.reported {chart : Bytes} {out : List Command} (h : Silent chart out) :
    reported chart out = [] := reported_eq_nil h.2

theorem Silent.announced {chart : Bytes} {out : List Command} (h : Silent chart out) :
    announced chart out = [] := by
  apply List.filterMap_eq_nil_iff.mpr
  intro c hc
  cases c with
  | begin id time =>
      have hid : id ∈ begun out := List.mem_filterMap.mpr ⟨_, hc, rfl⟩
      have hne : id ≠ chart := fun heq => h.2 (heq ▸ hid)
      simp [hne]
  | _ => rfl

theorem Silent.append {chart : Bytes} {a b : List Command} (ha : Silent chart a)
    (hb : Silent chart b) : Silent chart (a ++ b) := by
  refine ⟨ha.1.append hb.1, ?_⟩
  rw [begun_append, List.mem_append]
  exact fun h => h.elim ha.2 hb.2

theorem silent_flatMap {α : Type*} {chart : Bytes} {f : α → List Command}
    (h : ∀ x, Silent chart (f x)) (xs : List α) : Silent chart (xs.flatMap f) := by
  induction xs with
  | nil => exact ⟨closed_nil, List.not_mem_nil⟩
  | cons x xs ih => exact (h x).append ih

/-- Output that begins with a BEGIN line, so that it does not matter which chart
was open. -/
def Headed (out : List Command) : Prop := ∀ cmd ∈ out.head?, ∃ id time, cmd = .begin id time

theorem Headed.collect {out : List Command} (h : Headed out) (cur : Option Bytes) :
    collect cur out = collect none out := by
  cases out with
  | nil => cases cur <;> rfl
  | cons cmd out =>
      obtain ⟨id, time, rfl⟩ := h cmd rfl
      cases cur <;> rfl

theorem Headed.take {out : List Command} (h : Headed out) (n : ℕ) : Headed (out.take n) := by
  intro cmd hcmd
  cases n with
  | zero => simp at hcmd
  | succ n => exact h cmd (by cases out <;> exact hcmd)

/-- Such output adds nothing to a chart that it does not name. -/
theorem Headed.values_append {out : List Command} (h : Headed out) {chart : Bytes}
    (hchart : chart ∉ begun out) (before : List Command) (dimension : Bytes) :
    values chart dimension (before ++ out) = values chart dimension before := by
  have hout : reported chart out = [] := reported_eq_nil hchart
  rw [values, values, Netdata.reported, collect_append, h.collect, List.filterMap_append]
  rw [Netdata.reported] at hout
  rw [hout, List.append_nil]
  rfl

/-- Of output that is cut off, the values are the first ones. -/
theorem values_take (chart dimension : Bytes) (out : List Command) (n : ℕ) :
    values chart dimension (out.take n) <+: values chart dimension out := by
  have hcollect : collect none (out.take n) <+: collect none out := by
    conv_rhs => rw [← List.take_append_drop n out, collect_append]
    exact List.prefix_append _ _
  exact (hcollect.filterMap _).filterMap _

theorem begun_take {out : List Command} {chart : Bytes} (h : chart ∉ begun out) (n : ℕ) :
    chart ∉ begun (out.take n) := fun hmem => h (((List.take_prefix n out).filterMap _).subset hmem)

theorem silent_block {chart id : Bytes} (h : id ≠ chart) (time : Option ℕ)
    (sets : List (Bytes × ℤ)) : Silent chart (block (.begin id time) sets) := by
  refine ⟨block_closed _ _ _, ?_⟩
  rw [begun_block, List.mem_singleton]
  exact h.symm

end NetdataPlugins.Netdata
