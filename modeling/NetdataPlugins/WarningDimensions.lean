import Mathlib.Data.List.Induction
import NetdataPlugins.DeclaredOnce
import NetdataPlugins.KeyedTally
import NetdataPlugins.ScannerdLog

/-!
# The dimensions of the chart of warnings

An entry of the vector becomes a dimension of the chart at the first print after
it was added. `print_new_header_warn` looks for new entries from the end of the
vector and stops at the first old one, so all depends on the new entries being
the last ones.
-/
namespace NetdataPlugins.WarningDimensions
open MemoryBlock CString Netdata Runs Scanner ScannerdLog WarnAddress DeclaredOnce

/-- The arguments of `add_warn`. -/
structure Warning where
  scanner : Bytes
  warnt : Bytes
  ip : Block 4
  scanner_length : scanner.length = 2
  warnt_length : warnt.length = 4
  nul_notMem : 0 ∉ scanner ∧ 0 ∉ warnt
  terminated : 0 ∈ ip.bytes

def Warning.name (w : Warning) : Bytes := nameText w.scanner w.warnt (cstr w.ip.bytes)

inductive Op where
  | add (w : Warning) (junk : Block 16) (room : Bool)
  | print (time : ℕ)
  | clear

structure State where
  data : ScannerdStatistics
  stdout : List Command

def start (name : Bytes) : State := ⟨scannerdDataInit, scannerdPrintHdr name⟩

def step (name : Bytes) (s : State) : Op → Option State
  | .add w junk room =>
      (addWarn junk room w.scanner w.warnt w.ip s.data.swv).map fun swv =>
        { s with data := { s.data with swv := swv } }
  | .print time =>
      let (data, out) := scannerdPrint name s.data time
      some ⟨data, s.stdout ++ out⟩
  | .clear => some { s with data := scannerdClear s.data }

theorem addWarn_tally (w : Warning) (junk : Block 16) (room : Bool) (warn : List WarnT) :
    addWarn junk room w.scanner w.warnt w.ip warn = some (tally room w.name warn) :=
  addWarn_eq junk room ⟨w.scanner_length.ge, w.nul_notMem.1⟩ ⟨w.warnt_length.ge, w.nul_notMem.2⟩
    w.terminated warn

/-! ### What a print does -/

/-- The lines for one new entry. -/
def header (name : Bytes) (w : WarnT) : List Command :=
  [warningsChart name, ndDimension w.name (some w.name) .absolute 1 1 .visible]

def settle (w : WarnT) : WarnT := { w with new := 0 }

theorem names_settle (warn : List WarnT) : names (warn.map settle) = names warn := by
  simp [names, settle, Function.comp_def]

/-- The new entries come behind the old ones. -/
def OldThenNew (warn : List WarnT) : Prop :=
  ∃ old new, warn = old ++ new ∧ (∀ w ∈ old, w.new = 0) ∧ ∀ w ∈ new, w.new ≠ 0

theorem newHeaders_append (name : Bytes) {new old : List WarnT} (hnew : ∀ w ∈ new, w.new ≠ 0)
    (hold : ∀ w ∈ old, w.new = 0) :
    newHeaders name (new ++ old) = (new.map settle ++ old, new.flatMap (header name)) := by
  induction new with
  | nil =>
      cases old with
      | nil => rfl
      | cons w old => simp [newHeaders, hold w (by simp)]
  | cons w new ih =>
      have hw : w.new ≠ 0 := hnew w (by simp)
      rw [List.cons_append, newHeaders, if_neg hw, ih fun v hv => hnew v (by simp [hv])]
      rfl

/-- After a print no entry is new, and each new one had its lines. -/
theorem printNewHeaderWarn_eq (name : Bytes) {warn : List WarnT} (h : OldThenNew warn) :
    printNewHeaderWarn name warn =
      (warn.map settle, (warn.filter fun w => w.new ≠ 0).reverse.flatMap (header name)) := by
  obtain ⟨old, new, rfl, hold, hnew⟩ := h
  have hkeep : old.map settle = old := by
    conv_rhs => rw [← List.map_id old]
    apply List.map_congr_left
    rintro ⟨count, name, new⟩ hw
    cases hold _ hw
    rfl
  have hfilter : (old ++ new).filter (fun w => w.new ≠ 0) = new := by
    rw [List.filter_append, List.filter_eq_nil_iff.mpr fun w hw => by simp [hold w hw],
      List.filter_eq_self.mpr fun w hw => by simpa using hnew w hw, List.nil_append]
  rw [hfilter, printNewHeaderWarn, List.reverse_append, newHeaders_append name
    (fun w hw => hnew w (by simpa using hw)) (fun w hw => hold w (by simpa using hw))]
  simp [hkeep]

theorem mem_old {warn : List WarnT} (h : (names warn).Nodup) {w : WarnT} (hw : w ∈ warn) :
    w.name ∈ names (warn.filter fun w => w.new = 0) ↔ w.new = 0 := by
  rw [names, KeyedTally.key_mem_filter h hw, decide_eq_true_eq]

/-! ### What the collector knows -/

def warningsId (name : Bytes) : Bytes :=
  printTypePrefixId scannerd (some name) (some (lit "warnings"))

def errorsId (name : Bytes) : Bytes := printTypePrefixId scannerd (some name) (some (lit "errors"))

/-- The collector has heard the header, and of the warnings those with an old
entry. -/
structure Knows (name : Bytes) (old : List Bytes) (c : Collector) : Prop where
  closed : c.filling = none
  warnings : warningsId name ∈ c.charts
  errors : errorsId name ∈ c.charts
  error_mem : ∀ d ∈ errorNames, (errorsId name, lit d.1) ∈ c.dimensions
  warning_mem : ∀ n, (warningsId name, n) ∈ c.dimensions ↔
    n ∈ warningNames.map (fun d => lit d.1) ∨ n ∈ old

theorem listen_header {name : Bytes} {old : List Bytes} {c : Collector} (hc : Knows name old c)
    {w : WarnT} (hfixed : w.name ∉ warningNames.map fun d => lit d.1) (hold : w.name ∉ old) :
    ∃ d, c.listen (header name w) = some d ∧ Knows name (w.name :: old) d := by
  have hnew : (warningsId name, w.name) ∉ c.dimensions := by
    rw [hc.warning_mem, not_or]
    exact ⟨hfixed, hold⟩
  let d := c.define (warningsId name) [w.name]
  have hlisten : c.listen (header name w) = some d :=
    Collector.listen_newdim rfl hnew _ _ _ _ _
  refine ⟨d, hlisten, hc.closed, by simp [d, Collector.define], ?_, fun e he => ?_, fun n => ?_⟩
  · exact List.mem_cons_of_mem _ hc.errors
  · exact List.mem_append_left _ (hc.error_mem e he)
  · simp only [d, Collector.define, List.map_cons, List.map_nil, List.mem_append, hc.warning_mem,
      Prod.mk.injEq, true_and, List.mem_cons, List.not_mem_nil, or_false]
    tauto

theorem listen_headers {name : Bytes} {old : List Bytes} {c : Collector} (hc : Knows name old c)
    {warn : List WarnT} (hfixed : ∀ w ∈ warn, w.name ∉ warningNames.map fun d => lit d.1)
    (hnodup : (names warn).Nodup) (hold : ∀ w ∈ warn, w.name ∉ old) :
    ∃ d, c.listen (warn.flatMap (header name)) = some d ∧
      Knows name ((names warn).reverse ++ old) d := by
  induction warn generalizing old c with
  | nil => exact ⟨c, rfl, hc⟩
  | cons w warn ih =>
      obtain ⟨hw, hrest⟩ := List.nodup_cons.mp hnodup
      obtain ⟨e, he, hknows⟩ := listen_header hc (hfixed w (by simp)) (hold w (by simp))
      have hothers : ∀ v ∈ warn, v.name ∉ w.name :: old := fun v hv hmem =>
        (List.mem_cons.mp hmem).elim (fun heq => hw (heq ▸ List.mem_map_of_mem hv))
          (hold v (by simp [hv]))
      obtain ⟨d, hd, hknows⟩ := ih hknows (fun v hv => hfixed v (by simp [hv])) hrest hothers
      refine ⟨d, ?_, by simpa [names] using hknows⟩
      rw [List.flatMap_cons, Collector.listen_append he, hd]

theorem Knows.congr {name : Bytes} {old old' : List Bytes} {c : Collector} (hc : Knows name old c)
    (h : ∀ n, n ∈ old ↔ n ∈ old') : Knows name old' c :=
  { hc with warning_mem := fun n => by rw [hc.warning_mem, h] }

/-- The values of all entries are accepted. -/
theorem listen_blocks {name : Bytes} {data : ScannerdStatistics} {c : Collector}
    (hc : Knows name (names data.swv) c) (time : ℕ) :
    c.listen (block (ndBeginTime scannerd (some name) (some (lit "warnings")) time)
        (warningNames.map (fun d => (lit d.1, data.sss d.2)) ++
          data.swv.map fun w => (w.name, w.count)) ++
      block (ndBeginTime scannerd (some name) (some (lit "errors")) time)
        (errorNames.map fun d => (lit d.1, data.sss d.2))) = some c := by
  have hdeclared : ∀ r ∈ warningNames.map (fun d => (lit d.1, data.sss d.2)) ++
      data.swv.map (fun w => (w.name, w.count)), (warningsId name, r.1) ∈ c.dimensions := by
    intro r hr
    rw [hc.warning_mem]
    rcases List.mem_append.mp hr with hr | hr
    · obtain ⟨d, hd, rfl⟩ := List.mem_map.mp hr
      exact .inl (List.mem_map_of_mem hd)
    · obtain ⟨w, hw, rfl⟩ := List.mem_map.mp hr
      exact .inr (List.mem_map_of_mem hw)
  have herror : ∀ r ∈ errorNames.map (fun d => (lit d.1, data.sss d.2)),
      (errorsId name, r.1) ∈ c.dimensions := by
    intro r hr
    obtain ⟨d, hd, rfl⟩ := List.mem_map.mp hr
    exact hc.error_mem d hd
  have hwarnings := Collector.listen_block hc.warnings hc.closed
    (if time > 10000 then some time else none) hdeclared
  have herrors := Collector.listen_block hc.errors hc.closed
    (if time > 10000 then some time else none) herror
  exact (Collector.listen_append hwarnings _).trans herrors

/-- A print is accepted, and after it the collector has heard of every entry. -/
theorem listen_scannerdPrint {name : Bytes} {data : ScannerdStatistics} {c : Collector}
    (hc : Knows name (names (data.swv.filter fun w => w.new = 0)) c)
    (hfixed : ∀ w ∈ data.swv, w.name ∉ warningNames.map fun d => lit d.1)
    (hnodup : (names data.swv).Nodup) (horder : OldThenNew data.swv) (time : ℕ) :
    ∃ d, c.listen (scannerdPrint name data time).2 = some d ∧
      Knows name (names (scannerdPrint name data time).1.swv) d := by
  let new := (data.swv.filter fun w => w.new ≠ 0).reverse
  have hmem {w : WarnT} : w ∈ new ↔ w ∈ data.swv ∧ w.new ≠ 0 := by simp [new]
  have hnew : (names new).Nodup := by
    rw [names, List.map_reverse, List.nodup_reverse]
    exact hnodup.sublist (List.filter_sublist.map _)
  have hold : ∀ w ∈ new, w.name ∉ names (data.swv.filter fun w => w.new = 0) := by
    intro w hw
    rw [mem_old hnodup (hmem.mp hw).1]
    exact (hmem.mp hw).2
  obtain ⟨d, hd, hknows⟩ := listen_headers hc (fun w hw => hfixed w (hmem.mp hw).1) hnew hold
  have hnames := names_settle data.swv
  have hall : Knows name (names (data.swv.map settle)) d := by
    apply hknows.congr
    intro n
    rw [hnames]
    rw [List.mem_append, List.mem_reverse]
    have hsplit := KeyedTally.mem_keys_filter WarnT.name (fun w => w.new = 0) n data.swv
    simpa [names, new] using hsplit
  refine ⟨d, ?_, ?_⟩
  · rw [scannerdPrint, printNewHeaderWarn_eq name horder]
    dsimp only
    rw [List.append_assoc]
    exact (Collector.listen_append hd _).trans
      (@listen_blocks name ⟨data.swv.map settle, data.sss⟩ d hall time)
  · rw [scannerdPrint, printNewHeaderWarn_eq name horder]
    exact hall

theorem dimension_form (alg : Algorithm) (d : String × Scalar) :
    ∃ name a m v vis, dimension d.1 d.1 alg 1 = .dimension (lit d.1) name a m v vis :=
  ⟨_, _, _, _, _, rfl⟩

theorem listen_scannerdPrintHdr (name : Bytes) :
    ∃ c, Collector.empty.listen (scannerdPrintHdr name) = some c ∧ Knows name [] c := by
  have hne : warningsId name ≠ errorsId name := by
    simp only [warningsId, errorsId, printTypePrefixId, ne_eq, List.append_cancel_left_eq]
    decide
  let c := Collector.empty.define (errorsId name) (errorNames.map fun d => lit d.1)
  let d := c.define (warningsId name) (warningNames.map fun d => lit d.1)
  have herrors : Collector.empty.listen (scannerdChart name "errors" "Errors" "# errors"
      "scannerd" "scannerd.current_errors" .line ::
        errorNames.map fun d => dimension d.1 d.1 .absolute 1) = some c :=
    Collector.listen_chart (dimension_form .absolute) rfl (by decide +kernel) fun _ _ hx =>
      List.not_mem_nil hx
  have hwarnings : c.listen (warningsChart name ::
      warningNames.map fun d => dimension d.1 d.1 .absolute 1) = some d := by
    refine Collector.listen_chart (dimension_form .absolute) rfl (by decide +kernel)
      fun x _ hx => ?_
    obtain ⟨i, -, hi⟩ := List.mem_map.mp hx
    exact hne (Prod.mk.inj hi).1.symm
  refine ⟨d, (Collector.listen_append herrors _).trans hwarnings, ?_⟩
  refine ⟨rfl, by simp [d, Collector.define], by simp [d, c, Collector.define], fun x hx => ?_,
    fun n => ?_⟩
  · exact List.mem_append_left _ (List.mem_map_of_mem (List.mem_map_of_mem hx))
  · simp only [d, c, Collector.define, Collector.empty, List.nil_append, List.mem_append,
      List.mem_map, Prod.mk.injEq, List.not_mem_nil, or_false]
    constructor
    · rintro (⟨i, -, hi, -⟩ | ⟨i, hi, -, rfl⟩)
      · exact absurd hi.symm hne
      · exact hi
    · exact fun hn => .inr ⟨n, hn, by simp⟩

/-! ### Runs -/

/-- The names with their flags. -/
def flags (warn : List WarnT) : List (Bytes × ℤ) := warn.map fun w => (w.name, w.new)

structure Inv (name : Bytes) (s : State) : Prop where
  nodup : (names s.data.swv).Nodup
  order : OldThenNew s.data.swv
  fixed : ∀ w ∈ s.data.swv, w.name ∉ warningNames.map fun d => lit d.1
  heard : ∃ c, Collector.empty.listen s.stdout = some c ∧
    Knows name (names (s.data.swv.filter fun w => w.new = 0)) c

theorem names_flags (warn : List WarnT) : (flags warn).map Prod.fst = names warn := by
  simp [flags, names]

theorem old_flags (warn : List WarnT) :
    ((flags warn).filter fun f => f.2 = 0).map Prod.fst =
      names (warn.filter fun w => w.new = 0) := by
  rw [flags, List.filter_map, List.map_map]
  rfl

/-- The counts do not matter. -/
theorem OldThenNew.congr {warn warn' : List WarnT} (h : OldThenNew warn)
    (hflags : flags warn' = flags warn) : OldThenNew warn' := by
  obtain ⟨old, new, rfl, hold, hnew⟩ := h
  rw [flags, flags, List.map_append] at hflags
  obtain ⟨a, b, rfl, ha, hb⟩ := List.map_eq_append_iff.mp hflags
  refine ⟨a, b, rfl, fun w hw => ?_, fun w hw => ?_⟩
  · have hmem : (w.name, w.new) ∈ old.map fun w => (w.name, w.new) := ha ▸ List.mem_map_of_mem hw
    obtain ⟨v, hv, hvw⟩ := List.mem_map.mp hmem
    exact (Prod.mk.inj hvw).2 ▸ hold v hv
  · have hmem : (w.name, w.new) ∈ new.map fun w => (w.name, w.new) := hb ▸ List.mem_map_of_mem hw
    obtain ⟨v, hv, hvw⟩ := List.mem_map.mp hmem
    exact (Prod.mk.inj hvw).2 ▸ hnew v hv

theorem Inv.congr {name : Bytes} {s t : State} (h : Inv name s)
    (hflags : flags t.data.swv = flags s.data.swv) (hstdout : t.stdout = s.stdout) :
    Inv name t := by
  have hnames : names t.data.swv = names s.data.swv := by
    rw [← names_flags, hflags, names_flags]
  refine ⟨hnames ▸ h.nodup, h.order.congr hflags, fun w hw => ?_, ?_⟩
  · have hmem : w.name ∈ names s.data.swv := hnames ▸ List.mem_map_of_mem hw
    obtain ⟨v, hv, hvw⟩ := List.mem_map.mp hmem
    exact hvw ▸ h.fixed v hv
  · rw [hstdout, ← old_flags, hflags, old_flags]
    exact h.heard

theorem flags_raised {a b : List WarnT} (w : WarnT) :
    flags (a ++ { w with count := w.count + 1 } :: b) = flags (a ++ w :: b) := by
  simp [flags]

/-- The byte after the kind tells the names from the fixed ones. -/
theorem name_not_fixed (w : Warning) : w.name ∉ warningNames.map fun d => lit d.1 := by
  have hfixed : ∀ n ∈ warningNames.map fun d => lit d.1, n[7]? ≠ some 95 := by decide +kernel
  have hname : w.name[7]? = some 95 := by
    simp [Warning.name, nameText, List.take_of_length_le, w.scanner_length, w.warnt_length,
      List.getElem?_append]
  exact fun h => hfixed _ h hname

theorem inv_add {name : Bytes} {s : State} (h : Inv name s) (w : Warning) (room : Bool) :
    Inv name { s with data := { s.data with swv := tally room w.name s.data.swv } } := by
  rcases tally_cases room w.name s.data.swv with ⟨a, v, b, hswv, -, -, htally⟩ | ⟨hnot, htally⟩
  · refine h.congr ?_ rfl
    show flags (tally room w.name s.data.swv) = flags s.data.swv
    rw [htally, hswv, flags_raised]
  · cases room with
    | false => exact h.congr (by simp [htally, vectorAdd]) rfl
    | true =>
        simp only [htally, vectorAdd, if_true]
        obtain ⟨old, new, hsplit, hold, hnew⟩ := h.order
        refine ⟨?_, ⟨old, new ++ [⟨1, w.name, 1⟩], ?_, hold, ?_⟩, ?_, ?_⟩
        · rw [names, List.map_append, List.nodup_append]
          refine ⟨h.nodup, by simp, fun n hn m hm hnm => hnot ?_⟩
          simp only [List.map_cons, List.map_nil, List.mem_singleton] at hm
          exact hm ▸ hnm ▸ hn
        · simp [hsplit]
        · intro v hv
          rcases List.mem_append.mp hv with hv | hv
          · exact hnew v hv
          · simp [List.mem_singleton.mp hv]
        · intro v hv
          rcases List.mem_append.mp hv with hv | hv
          · exact h.fixed v hv
          · rw [List.mem_singleton.mp hv]
            exact name_not_fixed w
        · simpa [List.filter_append] using h.heard

theorem scannerdPrint_swv (name : Bytes) {data : ScannerdStatistics} (h : OldThenNew data.swv)
    (time : ℕ) : (scannerdPrint name data time).1.swv = data.swv.map settle := by
  rw [scannerdPrint, printNewHeaderWarn_eq name h]

theorem inv_print {name : Bytes} {s : State} (h : Inv name s) (time : ℕ) :
    Inv name ⟨(scannerdPrint name s.data time).1,
      s.stdout ++ (scannerdPrint name s.data time).2⟩ := by
  obtain ⟨c, hc, hknows⟩ := h.heard
  obtain ⟨d, hd, hknows⟩ := listen_scannerdPrint hknows h.fixed h.nodup h.order time
  have hswv := scannerdPrint_swv name h.order time
  have hnames := names_settle s.data.swv
  have hold : ∀ w ∈ s.data.swv.map settle, w.new = 0 := by
    simp [settle]
  refine ⟨?_, ⟨_, [], (List.append_nil _).symm, hswv ▸ hold, by simp⟩, fun w hw => ?_, d, ?_, ?_⟩
  · rw [hswv, hnames]
    exact h.nodup
  · rw [hswv] at hw
    obtain ⟨v, hv, rfl⟩ := List.mem_map.mp hw
    exact h.fixed v hv
  · rw [Collector.listen_append hc, hd]
  · rw [hswv] at hknows ⊢
    rwa [List.filter_eq_self.mpr fun w hw => by simpa using hold w hw]

theorem inv_start (name : Bytes) : Inv name (start name) :=
  ⟨List.nodup_nil, ⟨[], [], rfl, by simp, by simp⟩, by simp [start, scannerdDataInit],
    listen_scannerdPrintHdr name⟩

/-- An operation has a result and keeps the invariant. -/
theorem inv_step {name : Bytes} {s : State} (h : Inv name s) (op : Op) :
    ∃ t, step name s op = some t ∧ Inv name t := by
  cases op with
  | add w junk room =>
      refine ⟨_, ?_, inv_add h w room⟩
      rw [step, addWarn_tally]
      rfl
  | print time => exact ⟨_, rfl, inv_print h time⟩
  | clear =>
      refine ⟨_, rfl, h.congr ?_ rfl⟩
      simp [flags, scannerdClear, warnClear]

theorem inv_run (name : Bytes) (ops : List Op) :
    ∃ s, run (step name) (start name) ops = some s ∧ Inv name s := by
  induction ops using List.reverseRecOn with
  | nil => exact ⟨_, rfl, inv_start name⟩
  | append_singleton ops op ih =>
      obtain ⟨s, hs, h⟩ := ih
      obtain ⟨t, ht, h'⟩ := inv_step h op
      exact ⟨t, by simp [run_append, hs, run, ht], h'⟩

/-! ### The names -/

/-- The operation puts the name into the vector, where it is not yet. -/
def Op.Adds (n : Bytes) : Op → Prop
  | .add w _ room => room = true ∧ w.name = n
  | _ => False

def Op.IsPrint : Op → Prop
  | .print _ => True
  | _ => False

theorem mem_names_tally (room : Bool) (name n : Bytes) (warn : List WarnT) :
    n ∈ names (tally room name warn) ↔ n ∈ names warn ∨ (room = true ∧ name = n) := by
  rcases tally_cases room name warn with ⟨a, w, b, rfl, -, rfl, htally⟩ | ⟨-, htally⟩
  · have hnames : names (a ++ { w with count := w.count + 1 } :: b) = names (a ++ w :: b) := by
      simp [names]
    have hmem : w.name ∈ names (a ++ w :: b) := by simp [names]
    rw [htally, hnames]
    exact (or_iff_left_of_imp fun h => h.2 ▸ hmem).symm
  · cases room <;> simp [htally, vectorAdd, names, eq_comm]

/-- An entry that enters the vector is new, and the others keep their flags. -/
theorem old_tally (room : Bool) (name : Bytes) (warn : List WarnT) :
    names ((tally room name warn).filter fun w => w.new = 0) =
      names (warn.filter fun w => w.new = 0) := by
  rcases tally_cases room name warn with ⟨a, w, b, rfl, -, -, htally⟩ | ⟨-, htally⟩
  · rw [htally, ← old_flags, flags_raised, old_flags]
  · cases room <;> simp [htally, vectorAdd]

/-- The vector has the names that were added, and the old entries are those with
a print since. -/
theorem names_run (name n : Bytes) {ops : List Op} {s : State}
    (h : run (step name) (start name) ops = some s) :
    (n ∈ names s.data.swv ↔ ∃ op ∈ ops, op.Adds n) ∧
      (n ∈ names (s.data.swv.filter fun w => w.new = 0) ↔
        Precedes (Op.Adds n) Op.IsPrint ops) := by
  induction ops using List.reverseRecOn generalizing s with
  | nil =>
      cases h
      exact ⟨by simp [start, scannerdDataInit, names],
        iff_of_false List.not_mem_nil (not_precedes_nil _ _)⟩
  | append_singleton ops op ih =>
      obtain ⟨r, hr, hinv⟩ := inv_run name ops
      obtain ⟨hnames, hold⟩ := ih hr
      have hstep : step name r op = some s := by
        simpa [run_append, hr, run, Option.bind_eq_some_iff] using h
      rw [precedes_concat]
      simp only [List.mem_append, List.mem_singleton, or_and_right, exists_or, exists_eq_left]
      cases op with
      | add w junk room =>
          rw [step, addWarn_tally, Option.map_some, Option.some_inj] at hstep
          subst hstep
          rw [mem_names_tally, old_tally, hnames, hold]
          exact ⟨Iff.rfl, by simp [Op.IsPrint]⟩
      | print time =>
          have hswv : s.data.swv = r.data.swv.map settle := by
            rw [← Option.some_inj.mp hstep]
            exact scannerdPrint_swv name hinv.order time
          have hall : ∀ w ∈ r.data.swv.map settle, w.new = 0 := by simp [settle]
          have hfilter : (r.data.swv.map settle).filter (fun w => w.new = 0) =
              r.data.swv.map settle :=
            List.filter_eq_self.mpr fun w hw => by simpa using hall w hw
          rw [hswv, hfilter, names_settle, hnames]
          refine ⟨by simp [Op.Adds], ?_⟩
          have hmono := @Precedes.exists_mem _ (Op.Adds n) Op.IsPrint ops
          simpa [Op.IsPrint] using hmono
      | clear =>
          obtain rfl := Option.some_inj.mp hstep
          have hflags : flags (scannerdClear r.data).swv = flags r.data.swv := by
            simp [flags, scannerdClear, warnClear]
          rw [← names_flags, ← old_flags, hflags, names_flags, old_flags, hnames, hold]
          exact ⟨by simp [Op.Adds], by simp [Op.IsPrint]⟩

/-! ### The values -/

def Op.Allocates : Op → Prop
  | .add _ _ room => room = true
  | _ => True

/-- The calls of `add_warn` for a name since the last clear. -/
def callsSince (n : Bytes) (ops : List Op) : ℕ :=
  ops.foldl (fun k op => match op with
    | .add w _ _ => if w.name = n then k + 1 else k
    | .print _ => k
    | .clear => 0) 0

/-- The sum of the counts of a name. -/
def total (n : Bytes) (warn : List WarnT) : ℤ := KeyedTally.tally WarnT.name WarnT.count n warn

theorem callsSince_concat (n : Bytes) (ops : List Op) (op : Op) :
    callsSince n (ops ++ [op]) = match op with
      | .add w _ _ => if w.name = n then callsSince n ops + 1 else callsSince n ops
      | .print _ => callsSince n ops
      | .clear => 0 := by
  simp [callsSince]

theorem total_tally (name n : Bytes) (warn : List WarnT) :
    total n (ScannerdLog.tally true name warn) = total n warn + if name = n then 1 else 0 := by
  rcases tally_cases true name warn with ⟨a, w, b, rfl, -, rfl, htally⟩ | ⟨-, htally⟩
  · have hname : WarnT.name { w with count := w.count + 1 } = WarnT.name w := rfl
    have hcount : WarnT.count { w with count := w.count + 1 } = WarnT.count w + 1 := rfl
    rw [htally]
    exact KeyedTally.tally_raise hname hcount n a b
  · simp [htally, vectorAdd, total]

theorem total_settle (n : Bytes) (warn : List WarnT) :
    total n (warn.map settle) = total n warn := by
  rw [total, KeyedTally.tally, List.map_map]
  rfl

theorem total_warnClear (n : Bytes) (warn : List WarnT) : total n (warnClear warn) = 0 := by
  have hzero (w : WarnT) : WarnT.count { w with count := 0 } = 0 := rfl
  exact KeyedTally.tally_map_zero hzero n warn

/-- The counts are those of the calls. -/
theorem total_run (name n : Bytes) {ops : List Op} (hops : ∀ op ∈ ops, op.Allocates) {s : State}
    (h : run (step name) (start name) ops = some s) : total n s.data.swv = callsSince n ops := by
  induction ops using List.reverseRecOn generalizing s with
  | nil =>
      cases h
      rfl
  | append_singleton ops op ih =>
      obtain ⟨r, hr, hinv⟩ := inv_run name ops
      have hbefore := ih (fun o ho => hops o (by simp [ho])) hr
      have hstep : step name r op = some s := by
        simpa [run_append, hr, run, Option.bind_eq_some_iff] using h
      rw [callsSince_concat]
      cases op with
      | add w junk room =>
          have hroom : room = true := hops (.add w junk room) (by simp)
          rw [step, addWarn_tally, hroom, Option.map_some, Option.some_inj] at hstep
          subst hstep
          rw [total_tally, hbefore]
          split_ifs with hn <;> simp [hn]
      | print time =>
          cases hstep
          rw [← hbefore]
          exact (congrArg (total n) (scannerdPrint_swv name hinv.order time)).trans
            (total_settle n _)
      | clear =>
          cases hstep
          exact total_warnClear n _

theorem reported_scannerdPrint {name : Bytes} {data : ScannerdStatistics}
    (h : OldThenNew data.swv) (time : ℕ) :
    reported (warningsId name) (scannerdPrint name data time).2 =
      warningNames.map (fun d => (lit d.1, data.sss d.2)) ++
        data.swv.map fun w => (w.name, w.count) := by
  have hne : printTypePrefixId scannerd (some name) (some (lit "errors")) ≠ warningsId name := by
    simp only [warningsId, printTypePrefixId, ne_eq, List.append_cancel_left_eq]
    decide
  have hown : printTypePrefixId scannerd (some name) (some (lit "warnings")) = warningsId name :=
    rfl
  have hheader (w : WarnT) : Closed (header name w) := rfl
  have hheaders := closed_flatMap (data.swv.filter fun w => w.new ≠ 0).reverse hheader
  have hsilent : reported (warningsId name)
      ((data.swv.filter fun w => w.new ≠ 0).reverse.flatMap (header name)) = [] := by
    rw [reported_flatMap _ hheader]
    exact List.flatMap_eq_nil_iff.mpr fun w _ => rfl
  rw [scannerdPrint, printNewHeaderWarn_eq name h]
  dsimp only
  rw [List.append_assoc, hheaders.reported_append, hsilent, List.nil_append, ndBeginTime,
    ndBeginTime, (block_closed _ _ _).reported_append, reported_block, reported_block,
    if_pos hown, if_neg hne, List.append_nil]
  simp [settle, Function.comp_def]

/-- Every name has one value in a print. -/
theorem values_scannerdPrint {name : Bytes} {s : State} (h : Inv name s) {w : WarnT}
    (hw : w ∈ s.data.swv) (time : ℕ) :
    values (warningsId name) w.name (scannerdPrint name s.data time).2 =
      [total w.name s.data.swv] := by
  have hfixed : ∀ r ∈ warningNames.map fun d => (lit d.1, s.data.sss d.2),
      (if r.1 = w.name then some r.2 else none) = none := by
    intro r hr
    obtain ⟨d, hd, rfl⟩ := List.mem_map.mp hr
    have hmem : lit d.1 ∈ warningNames.map fun d => lit d.1 := List.mem_map_of_mem hd
    have hne : lit d.1 ≠ w.name := fun heq => h.fixed w hw (heq ▸ hmem)
    exact if_neg hne
  have hone := KeyedTally.counts_of_nodup WarnT.count h.nodup w.name
  rw [if_pos (List.mem_map_of_mem hw)] at hone
  rw [values, reported_scannerdPrint h.order, List.filterMap_append,
    List.filterMap_eq_nil_iff.mpr hfixed, List.nil_append, List.filterMap_map]
  exact hone

/-- Whatever is added, printed and cleared: the vector has the names that were
added, all distinct, and the new entries are the last ones; a strict collector
takes all the output, which has one DIMENSION line for each name that was
printed after it was added, and none for the others; and the next print leaves
every name with one DIMENSION line, and has one value for each, the number of
its warnings since the last clear. -/
theorem warning_dimensions (name : Bytes) (ops : List Op) :
    ∃ s, run (step name) (start name) ops = some s ∧
      (∀ n, n ∈ names s.data.swv ↔ ∃ op ∈ ops, op.Adds n) ∧
      (names s.data.swv).Nodup ∧ OldThenNew s.data.swv ∧
      (∃ c, Collector.empty.listen s.stdout = some c ∧
        (∀ w ∈ s.data.swv,
          c.dimensions.count (warningsId name, w.name) = if w.new = 0 then 1 else 0) ∧
        ∀ w : Warning, c.dimensions.count (warningsId name, w.name) ≤ 1 ∧
          ((warningsId name, w.name) ∈ c.dimensions ↔
            Precedes (Op.Adds w.name) Op.IsPrint ops)) ∧
      ∀ time, (∀ w ∈ (scannerdPrint name s.data time).1.swv, w.new = 0) ∧
        (∃ c, Collector.empty.listen (s.stdout ++ (scannerdPrint name s.data time).2) = some c ∧
          ∀ n, (∃ op ∈ ops, op.Adds n) → c.dimensions.count (warningsId name, n) = 1) ∧
        (∀ w ∈ s.data.swv, ∃ k,
          values (warningsId name) w.name (scannerdPrint name s.data time).2 = [k] ∧
          ((∀ op ∈ ops, op.Allocates) → k = callsSince w.name ops)) ∧
        ((∀ op ∈ ops, op.Allocates) → ∀ w junk room, Op.add w junk room ∈ ops →
          values (warningsId name) w.name (scannerdPrint name s.data time).2 =
            [(callsSince w.name ops : ℤ)]) := by
  obtain ⟨s, hs, h⟩ := inv_run name ops
  obtain ⟨c, hc, hknows⟩ := h.heard
  have hadded (n : Bytes) := (names_run name n hs).1
  refine ⟨s, hs, hadded, h.nodup, h.order, ⟨c, hc, fun w hw => ?_, fun w => ⟨?_, ?_⟩⟩,
    fun time => ⟨?_, ?_, fun w hw => ?_, fun hops w junk room hop => ?_⟩⟩
  · have hmem : (warningsId name, w.name) ∈ c.dimensions ↔ w.new = 0 := by
      rw [hknows.warning_mem, or_iff_right (h.fixed w hw), mem_old h.nodup hw]
    rw [(Collector.nodup_dimensions List.nodup_nil hc).count]
    exact if_congr hmem rfl rfl
  · exact List.nodup_iff_count_le_one.mp (Collector.nodup_dimensions List.nodup_nil hc) _
  · rw [hknows.warning_mem, or_iff_right (name_not_fixed w)]
    exact (names_run name w.name hs).2
  · rw [scannerdPrint_swv name h.order]
    simp [settle]
  · obtain ⟨d, hd, hknows⟩ := (inv_print h time).heard
    refine ⟨d, hd, fun n hn => ?_⟩
    have hprinted : n ∈ names ((scannerdPrint name s.data time).1.swv.filter
        fun w => w.new = 0) := by
      rw [scannerdPrint_swv name h.order, List.filter_eq_self.mpr (by simp [settle]),
        names_settle]
      exact (hadded n).mpr hn
    rw [(Collector.nodup_dimensions List.nodup_nil hd).count,
      if_pos ((hknows.warning_mem n).mpr (.inr hprinted))]
  · exact ⟨_, values_scannerdPrint h hw time, fun hops => total_run name w.name hops hs⟩
  · have hroom : room = true := hops _ hop
    obtain ⟨e, he, hname⟩ := List.mem_map.mp ((hadded w.name).mpr ⟨_, hop, hroom, rfl⟩)
    rw [← hname, values_scannerdPrint h he time, hname, total_run name w.name hops hs]

end NetdataPlugins.WarningDimensions
