import NetdataPlugins.PluginAudience
import NetdataPlugins.ScannerPlugin

/-!
# The collector of scanner.plugin

The charts of the `details` log have fixed dimensions, and the chart of warnings
gets new ones while the plugin runs. In every run a strict collector takes all
that is printed.
-/
namespace NetdataPlugins.ScannerPlugin
open MemoryBlock CString Netdata Timer FileWatch IndexedLoop LogWatch Runs Scanner ScannerdLog
  WarningDimensions PluginLoop DeclaredOnce
open DeclaredOnce.Collector (Takes Stable Unheard takes_header takes_rows declared rowsOf
  mem_rowsOf nodup_rowsOf stable_knows declared_owned shut_of_closed Framed)
open LogDirectory (DirEntry)
open ScannerCharts (isScannerd)

variable {duration : Bytes → ℤ}

def chartOf (name id : Bytes) : Bytes := printTypePrefixId Scanner.scannerd (some name) (some id)

theorem chartOf_injective (name : Bytes) : Function.Injective (chartOf name) := fun _ _ h =>
  (printTypePrefixId_inj _ _ _ _).mp h

/-! ### The details log -/

def typeIds : List Bytes :=
  [lit "clear", lit "clamdscan", lit "spam_tagged", lit "spam_rejected", lit "spam_deleted",
    lit "other"]

def cachedIds : List Bytes := [lit "sc_0", lit "sc_1", lit "cc_0", lit "cc_1"]

def durationIds : List Bytes := durationNames.map fun d => lit d.1

def fieldIds : List Bytes := [lit "null_field", lit "empty_field", lit "incorrect_#clmns"]

/-- The dimensions of the charts, by the ids of the charts. -/
def detailsRows : List (Bytes × Bytes) :=
  typeIds.map (fun i => (lit "type", i)) ++ cachedIds.map (fun i => (lit "cached", i)) ++
    durationIds.map (fun i => (lit "duration", i)) ++
    durationIds.map (fun i => (lit "duration_ratio", i)) ++
    fieldIds.map fun i => (lit "incorrect_data_fields", i)

theorem declared_detailsPrintHdr (name : Bytes) :
    declared none (detailsPrintHdr name) = rowsOf (chartOf name) detailsRows := rfl

theorem takes_detailsPrintHdr (name : Bytes) :
    Takes (· ∈ charts name .details) (Unheard (· ∈ charts name .details)) (detailsPrintHdr name)
      fun c => c.Knows (rowsOf (chartOf name) detailsRows) := by
  have hnodup : (declared none (detailsPrintHdr name)).Nodup := by
    rw [declared_detailsPrintHdr]
    exact nodup_rowsOf (chartOf_injective name) (by decide)
  exact Takes.mono (takes_header rfl trivial (fun _ h => h) hnodup) (fun _ h => h)
    (fun _ h => h) fun _ h => h.1

theorem takes_detailsPrint (name : Bytes) (data : DetailsStatistics) (time : ℕ) :
    Takes (· ∈ charts name .details) (fun c => c.Knows (rowsOf (chartOf name) detailsRows))
      (detailsPrint name data time) fun c => c.Knows (rowsOf (chartOf name) detailsRows) := by
  have htype : typeIds ≠ [] ∧ ∀ i ∈ typeIds, (lit "type", i) ∈ detailsRows := by decide
  have hcached : cachedIds ≠ [] ∧ ∀ i ∈ cachedIds, (lit "cached", i) ∈ detailsRows := by
    decide
  have hduration : durationIds ≠ [] ∧ ∀ i ∈ durationIds, (lit "duration", i) ∈ detailsRows := by
    decide
  have hratio : durationIds ≠ [] ∧ ∀ i ∈ durationIds, (lit "duration_ratio", i) ∈ detailsRows := by
    decide
  have hfield : fieldIds ≠ [] ∧ ∀ i ∈ fieldIds,
      (lit "incorrect_data_fields", i) ∈ detailsRows := by decide
  exact ((((takes_rows typeIds htype _ rfl).append (takes_rows cachedIds hcached _ rfl)).append
    (takes_rows durationIds hduration _ rfl)).append
    (takes_rows durationIds hratio _ rfl)).append (takes_rows fieldIds hfield _ rfl)

/-! ### The current log -/

/-- The names that were declared. -/
def oldNames (data : ScannerdStatistics) : List Bytes :=
  names (data.swv.filter fun w => w.new = 0)

theorem oldNames_congr {data data' : ScannerdStatistics}
    (h : flags data'.swv = flags data.swv) : oldNames data' = oldNames data := by
  rw [oldNames, oldNames, ← old_flags, h, old_flags]

/-- A line may add a name, but not one that was declared. -/
theorem oldNames_process {x : Frame} {mem : Bytes} {data data' : ScannerdStatistics}
    (hnul : 0 ∈ mem) (h : scannerdProcess x mem data = some data') :
    oldNames data' = oldNames data := by
  rcases ScannerdCounts.swv_scannerdProcess hnul h with hswv | ⟨w, hswv⟩
  · exact oldNames_congr (by rw [hswv])
  · rcases tally_cases x.room w.name data.swv with ⟨a, v, b, hsame, -, -, htally⟩ | ⟨-, htally⟩
    · apply oldNames_congr
      rw [hswv, htally, hsame, flags_raised]
    · rw [oldNames, hswv, htally]
      cases x.room <;> simp [vectorAdd, oldNames]

theorem stable_knowsWarnings (name : Bytes) (old : List Bytes) :
    Stable (· ∈ charts name .scannerd) fun c => Knows name old c.shut := by
  intro c d hagree h
  have herrors : errorsId name ∈ charts name .scannerd := List.mem_cons_self
  have hwarnings : warningsId name ∈ charts name .scannerd := by
    exact List.mem_cons_of_mem _ List.mem_cons_self
  exact ⟨rfl, (hagree.charts _ hwarnings).mp h.warnings, (hagree.charts _ herrors).mp h.errors,
    fun d hd => (hagree.dimensions _ _ herrors).mp (h.error_mem d hd),
    fun n => (hagree.dimensions _ _ hwarnings).symm.trans (h.warning_mem n)⟩

def scannerdRows : List (Bytes × Bytes) :=
  errorNames.map (fun d => (lit "errors", lit d.1)) ++
    warningNames.map fun d => (lit "warnings", lit d.1)

theorem declared_scannerdPrintHdr (name : Bytes) :
    declared none (scannerdPrintHdr name) = rowsOf (chartOf name) scannerdRows := rfl

theorem warningsId_ne_errorsId (name : Bytes) : warningsId name ≠ errorsId name := fun h =>
  absurd (chartOf_injective name h) (by decide)

theorem takes_scannerdPrintHdr (name : Bytes) :
    Takes (· ∈ charts name .scannerd) (Unheard (· ∈ charts name .scannerd)) (scannerdPrintHdr name)
      fun c => Knows name [] c.shut := by
  have hnodup : (declared none (scannerdPrintHdr name)).Nodup := by
    rw [declared_scannerdPrintHdr]
    exact nodup_rowsOf (chartOf_injective name) (by decide)
  refine Takes.mono (takes_header rfl trivial (fun _ h => h) hnodup) (fun _ h => h)
    (fun _ h => h) fun c ⟨hknows, honly⟩ => ?_
  rw [declared_scannerdPrintHdr] at hknows honly
  have herror (d : String × Scalar) (hd : d ∈ errorNames) :
      (errorsId name, lit d.1) ∈ rowsOf (chartOf name) scannerdRows :=
    mem_rowsOf (F := chartOf name) (List.mem_append_left _ (List.mem_map.mpr ⟨d, hd, rfl⟩))
  have hwarning (d : String × Scalar) (hd : d ∈ warningNames) :
      (warningsId name, lit d.1) ∈ rowsOf (chartOf name) scannerdRows :=
    mem_rowsOf (F := chartOf name) (List.mem_append_right _ (List.mem_map.mpr ⟨d, hd, rfl⟩))
  refine ⟨rfl, (hknows _ (hwarning _ List.mem_cons_self)).1,
    (hknows _ (herror _ List.mem_cons_self)).1, fun d hd => (hknows _ (herror d hd)).2,
    fun n => ⟨fun hn => .inl ?_, fun hn => ?_⟩⟩
  · obtain ⟨r, hr, heq⟩ := List.mem_map.mp
      (honly _ hn (List.mem_cons_of_mem _ List.mem_cons_self))
    obtain ⟨hchart, hid⟩ := Prod.mk.inj heq
    rcases List.mem_append.mp hr with hr | hr
    · obtain ⟨d, -, rfl⟩ := List.mem_map.mp hr
      exact absurd hchart.symm (warningsId_ne_errorsId name)
    · obtain ⟨d, hd, rfl⟩ := List.mem_map.mp hr
      exact List.mem_map.mpr ⟨d, hd, hid⟩
  · obtain ⟨d, hd, rfl⟩ := List.mem_map.mp (hn.resolve_right List.not_mem_nil)
    exact (hknows _ (hwarning d hd)).2

theorem framed_newHeaders (name : Bytes) (warn : List WarnT) :
    Framed (newHeaders name warn).2 := by
  cases warn with
  | nil => trivial
  | cons w warn =>
      unfold newHeaders
      split_ifs <;> trivial

theorem takes_scannerdPrint (name : Bytes) (data : ScannerdStatistics) (time : ℕ) :
    Takes (· ∈ charts name .scannerd)
      (fun c => Reachable data ∧ Knows name (oldNames data) c.shut)
      (scannerdPrint name data time).2
      fun c => Reachable (scannerdPrint name data time).1 ∧
        Knows name (oldNames (scannerdPrint name data time).1) c.shut := by
  refine ⟨?_, fun chart hchart => ?_, fun c hc ⟨hreachable, hknows⟩ => ?_⟩
  · exact ((framed_newHeaders _ _).append (Framed.block _ _ _)).append (Framed.block _ _ _)
  · rw [ScannerCharts.defined_scannerdPrint hchart]
    exact List.mem_cons_of_mem _ List.mem_cons_self
  · obtain ⟨out, hinv⟩ := hreachable name
    rw [shut_of_closed hc] at hknows
    obtain ⟨d, hd, hknows⟩ := listen_scannerdPrint hknows hinv.fixed hinv.nodup hinv.order time
    have hold : ∀ w ∈ (scannerdPrint name data time).1.swv, w.new = 0 := by
      rw [scannerdPrint_swv name hinv.order]
      simp [settle]
    refine ⟨d, hd, hknows.closed, hreachable.print name time, ?_⟩
    rw [oldNames, List.filter_eq_self.mpr fun w hw => by simpa using hold w hw,
      shut_of_closed hknows.closed]
    exact hknows

/-! ### The audience -/

def audience (duration : Bytes → ℤ) : Audience (interface duration) where
  Initial d := d = .details DetailsLog.detailsDataInit ∨ d = .scannerd scannerdDataInit
  Ready
    | name, .details _, c => c.Knows (rowsOf (chartOf name) detailsRows)
    | name, .scannerd data, c => Reachable data ∧ Knows name (oldNames data) c.shut
  Shared _ _ := True
  stable name d := by
    cases d with
    | details data =>
        apply stable_knows
        intro r hr
        rw [← declared_detailsPrintHdr] at hr
        exact declared_owned (by simp) (fun _ h => h) r hr
    | scannerd data =>
        exact fun c d hagree h => ⟨h.1, stable_knowsWarnings name _ c d hagree h.2⟩
  stable_shared _ _ _ _ _ := trivial
  printHdr name d hd := by
    rcases hd with rfl | rfl
    · exact takes_detailsPrintHdr name
    · exact (takes_scannerdPrintHdr name).mono (fun _ h => h) (fun _ h => h)
        fun _ h => ⟨reachable_init, h⟩
  process x mem d d' name c hnul h hready := by
    cases d with
    | details data =>
        obtain ⟨data', -, rfl⟩ := Option.map_eq_some_iff.mp h
        exact hready
    | scannerd data =>
        obtain ⟨data', hprocess, rfl⟩ := Option.map_eq_some_iff.mp h
        exact ⟨hready.1.process hnul hprocess, (oldNames_process hnul hprocess) ▸ hready.2⟩
  measure _ _ _ _ h := h
  postprocess g d name c hready _ := by
    cases d <;> exact ⟨hready, trivial⟩
  print name d time := by
    cases d with
    | details data => exact takes_detailsPrint name data time
    | scannerd data => exact takes_scannerdPrint name data time
  clear d name c hready := by
    cases d with
    | details data => exact hready
    | scannerd data =>
        refine ⟨Reachable.clear hready.1, ?_⟩
        have hold : oldNames (scannerdClear data) = oldNames data :=
          oldNames_congr (by simp [flags, scannerdClear, warnClear])
        exact hold ▸ hready.2
  epilogue _ _ := Takes.nil fun _ _ => trivial

/-! ### Runs -/

/-- A new address in each of two ticks; the print of the second one fails when
the address is declared. -/
def twoAddresses : List (Step Input) :=
  currentTick addressLine none ++
    currentTick (lit "@4000 warning: rspamd(127) unable to connect to \"10.0.0.18\" (timeout)")
      (some 2)

end NetdataPlugins.ScannerPlugin
