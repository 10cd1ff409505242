import Mathlib.Data.List.Induction
import Mathlib.Data.List.Nodup
import Mathlib.Data.List.Pairwise
import NetdataPlugins.QmailPlugin

/-!
# The charts of qmail.plugin

The id of a chart of a directory is put together from the name of the directory
and the id of the chart, with `_` between them, and both may contain `_`. The
ids of all charts should differ, or the collector takes two charts for one.
They do, except where one smtp directory has the name of another with `_end`
behind it: the status chart of the longer name is the end status chart of the
shorter one.
-/
namespace NetdataPlugins.QmailCharts
open MemoryBlock CString Netdata Timer Smtp Send Queue QmailPlugin
open LogDirectory (DirEntry)

/-- The charts that a directory gets. -/
def chartsOf (dir : Bytes) : List Bytes :=
  match dirData dir with
  | some data => defined (data.printHdr dir)
  | none => []

/-- The charts that do not belong to a directory. -/
def fixedCharts : List Bytes :=
  defined printQueueHdr ++ defined ratelimitsppPrintHdr ++ limitOrder.map limitChart

def UsesSmtp (dir : Bytes) : Prop :=
  contains dir (lit "send") = false ∧ contains dir (lit "smtp") = true

/-! ### What is printed -/

theorem print_closed (name : Bytes) (time : ℕ) (data : Data) : Closed (data.print name time) := by
  cases data with
  | send d => exact (block_closed _ _ _).append (block_closed _ _ _)
  | smtp d =>
      refine ((((Closed.append ?_ ?_).append ?_).append ?_).append ?_).append ?_
      all_goals exact block_closed _ _ _
  | queue d => exact block_closed _ _ _

/-- A print begins the charts that the header has defined. -/
theorem begun_print (name : Bytes) (time : ℕ) (data : Data) :
    begun (data.print name time) = defined (data.printHdr name) := by
  cases data <;> rfl

def sendIds : List Bytes := [[], lit "delivery"]

def smtpIds : List Bytes :=
  [[], lit "status", lit "end_status", lit "smtp_type", lit "tls", lit "queue_err"]

/-- The ids of the charts of a directory, without its name. -/
def ids (dir : Bytes) : List Bytes :=
  if contains dir (lit "send") then sendIds
  else if contains dir (lit "smtp") then smtpIds
  else []

/-- What follows the name in the id of a chart. -/
def ending (id : Bytes) : Bytes := lit "_" ++ id

theorem printTypePrefixId_ending (name id : Bytes) :
    printTypePrefixId qmail (some name) (some id) = lit "qmail." ++ name ++ ending id := by
  simp [printTypePrefixId, checkNull, ending, qmail, lit]

theorem defined_printHdr (name : Bytes) (data : Data) :
    defined (data.printHdr name) =
      match data with
      | .send _ => sendIds.map fun id => lit "qmail." ++ name ++ ending id
      | .smtp _ => smtpIds.map fun id => lit "qmail." ++ name ++ ending id
      | .queue _ => [lit "qmail.queue"] := by
  simp only [← printTypePrefixId_ending]
  cases data <;> rfl

theorem chartsOf_eq (dir : Bytes) :
    chartsOf dir = (ids dir).map fun id => lit "qmail." ++ dir ++ ending id := by
  unfold chartsOf dirData ids
  split_ifs
  · exact defined_printHdr dir (.send sendDataInit)
  · exact defined_printHdr dir (.smtp smtpDataInit)
  · rfl

/-! ### Collisions -/

/-- One ending ends another only in one case. -/
theorem ending_suffix : ∀ a ∈ sendIds ++ smtpIds, ∀ b ∈ sendIds ++ smtpIds,
    ending a <:+ ending b → a = b ∨ a = lit "status" ∧ b = lit "end_status" := by
  decide +kernel

theorem fixed_ending : ∀ f ∈ fixedCharts, ∀ id ∈ sendIds ++ smtpIds, ¬ ending id <:+ f := by
  decide +kernel

/-- The charts of the limits belong to no watcher, whatever its name is. -/
theorem silent_print (l : Limit) (name : Bytes) (time : ℕ) (data : Data) :
    Silent (limitChart l) (data.print name time) := by
  refine ⟨print_closed name time data, ?_⟩
  have hfixed : limitChart l ∈ fixedCharts := by cases l <;> decide
  rw [begun_print, defined_printHdr]
  cases data with
  | send d =>
      intro hmem
      obtain ⟨id, hid, heq⟩ := List.mem_map.mp hmem
      exact fixed_ending _ hfixed id (List.mem_append_left _ hid) ⟨_, heq⟩
  | smtp d =>
      intro hmem
      obtain ⟨id, hid, heq⟩ := List.mem_map.mp hmem
      exact fixed_ending _ hfixed id (List.mem_append_right _ hid) ⟨_, heq⟩
  | queue d =>
      show limitChart l ∉ [lit "qmail.queue"]
      cases l <;> decide

theorem mem_ids {dir id : Bytes} (h : id ∈ ids dir) : id ∈ sendIds ++ smtpIds := by
  unfold ids at h
  split_ifs at h
  · exact List.mem_append_left _ h
  · exact List.mem_append_right _ h
  · cases h

theorem status_mem_ids {dir : Bytes} : lit "status" ∈ ids dir ↔ UsesSmtp dir := by
  unfold ids UsesSmtp
  have hsend : lit "status" ∉ sendIds := by decide
  have hsmtp : lit "status" ∈ smtpIds := by decide
  cases contains dir (lit "send") <;> cases contains dir (lit "smtp") <;> simp [hsend, hsmtp]

theorem endStatus_mem_ids {dir : Bytes} : lit "end_status" ∈ ids dir ↔ UsesSmtp dir := by
  unfold ids UsesSmtp
  have hsend : lit "end_status" ∉ sendIds := by decide
  have hsmtp : lit "end_status" ∈ smtpIds := by decide
  cases contains dir (lit "send") <;> cases contains dir (lit "smtp") <;> simp [hsend, hsmtp]

/-- Two charts of different directories have one id only if one is a status
and the other an end status, and the names fit. -/
theorem collision {x y a b : Bytes} (ha : a ∈ ids x) (hb : b ∈ ids y)
    (hsuffix : ending a <:+ ending b) (h : x ++ ending a = y ++ ending b) :
    x = y ∨ x = y ++ lit "_end" ∧ UsesSmtp x ∧ UsesSmtp y := by
  rcases ending_suffix a (mem_ids ha) b (mem_ids hb) hsuffix with rfl | ⟨rfl, rfl⟩
  · exact .inl (List.append_cancel_right h)
  · refine .inr ⟨?_, status_mem_ids.mp ha, endStatus_mem_ids.mp hb⟩
    have hsplit : ending (lit "end_status") = lit "_end" ++ ending (lit "status") := by decide
    rw [hsplit, ← List.append_assoc] at h
    exact List.append_cancel_right h

theorem mem_chartsOf {dir chart : Bytes} :
    chart ∈ chartsOf dir ↔ ∃ id ∈ ids dir, lit "qmail." ++ dir ++ ending id = chart := by
  rw [chartsOf_eq, List.mem_map]

theorem chartsOf_nodup (dir : Bytes) : (chartsOf dir).Nodup := by
  have hids : (ids dir).Nodup := by
    unfold ids
    split_ifs <;> decide
  rw [chartsOf_eq]
  exact List.Nodup.map (fun a b hab => by simpa [ending] using hab) hids

/-- No chart of a directory is one of the others. -/
theorem chartsOf_fixed {dir chart : Bytes} (h : chart ∈ chartsOf dir) : chart ∉ fixedCharts := by
  obtain ⟨id, hid, rfl⟩ := mem_chartsOf.mp h
  exact fun hmem => fixed_ending _ hmem id (mem_ids hid) (List.suffix_append _ _)

/-- Different directories that share a chart are named alike up to `_end`. -/
theorem shared_chart {x y chart : Bytes} (hne : x ≠ y) (hx : chart ∈ chartsOf x)
    (hy : chart ∈ chartsOf y) :
    UsesSmtp x ∧ UsesSmtp y ∧ (x = y ++ lit "_end" ∨ y = x ++ lit "_end") := by
  obtain ⟨a, ha, hxa⟩ := mem_chartsOf.mp hx
  obtain ⟨b, hb, hyb⟩ := mem_chartsOf.mp hy
  have heq : x ++ ending a = y ++ ending b := by
    have := hxa.trans hyb.symm
    simpa using this
  rcases List.suffix_or_suffix_of_suffix ⟨x, rfl⟩ ⟨y, heq.symm⟩ with hab | hba
  · rcases collision ha hb hab heq with h | ⟨h, hsx, hsy⟩
    · exact absurd h hne
    · exact ⟨hsx, hsy, .inl h⟩
  · rcases collision hb ha hba heq.symm with h | ⟨h, hsy, hsx⟩
    · exact absurd h.symm hne
    · exact ⟨hsx, hsy, .inr h⟩

theorem end_shares_chart {dir : Bytes} (h : UsesSmtp dir) (hend : UsesSmtp (dir ++ lit "_end")) :
    ∃ chart ∈ chartsOf dir, chart ∈ chartsOf (dir ++ lit "_end") := by
  refine ⟨lit "qmail." ++ dir ++ ending (lit "end_status"),
    mem_chartsOf.mpr ⟨_, endStatus_mem_ids.mpr h, rfl⟩,
    mem_chartsOf.mpr ⟨_, status_mem_ids.mpr hend, ?_⟩⟩
  have hsplit : ending (lit "end_status") = lit "_end" ++ ending (lit "status") := by decide
  rw [hsplit]
  simp

/-- The ids of all charts differ exactly when no smtp directory is named like
another one with `_end` behind it. -/
theorem charts_nodup_iff {dirs : List Bytes} (h : dirs.Nodup) :
    (dirs.flatMap chartsOf ++ fixedCharts).Nodup ↔
      ¬ ∃ dir ∈ dirs, UsesSmtp dir ∧ dir ++ lit "_end" ∈ dirs ∧ UsesSmtp (dir ++ lit "_end") := by
  rw [List.nodup_append, List.nodup_flatMap]
  constructor
  · rintro ⟨⟨-, hpair⟩, -⟩ ⟨dir, hdir, hsmtp, hmem, hend⟩
    have hne : dir ≠ dir ++ lit "_end" := fun heq => by
      have := congrArg List.length heq
      simp [lit] at this
    obtain ⟨chart, hchart, hchart'⟩ := end_shares_chart hsmtp hend
    have hsymm : Std.Symm (Function.onFun List.Disjoint chartsOf) :=
      ⟨fun _ _ hxy _ hy hx => hxy hx hy⟩
    exact hpair.forall hdir hmem hne hchart hchart'
  · intro hno
    refine ⟨⟨fun dir _ => chartsOf_nodup dir, ?_⟩, by decide +kernel, ?_⟩
    · refine h.imp_of_mem fun {x y} hx hy hne chart hcx hcy => ?_
      obtain ⟨hsx, hsy, rfl | rfl⟩ := shared_chart hne hcx hcy
      · exact hno ⟨y, hy, hsy, hx, hsx⟩
      · exact hno ⟨x, hx, hsx, hy, hsy⟩
    · rintro chart hchart fixed hfixed rfl
      obtain ⟨dir, -, hdir⟩ := List.mem_flatMap.mp hchart
      exact chartsOf_fixed hdir hfixed

theorem charts_nodup_two_dirs :
    ([lit "send", lit "smtp"].flatMap chartsOf ++ fixedCharts).Nodup ↔
      ¬ ∃ dir ∈ [lit "send", lit "smtp"], UsesSmtp dir ∧
        dir ++ lit "_end" ∈ [lit "send", lit "smtp"] ∧ UsesSmtp (dir ++ lit "_end") :=
  charts_nodup_iff (by decide)

/-- The status of `smtp_end` is printed as the end status of `smtp`. -/
theorem charts_collide :
    lit "qmail.smtp_end_status" ∈ chartsOf (lit "smtp") ∧
      lit "qmail.smtp_end_status" ∈ chartsOf (lit "smtp_end") ∧
      ¬ ([lit "smtp", lit "smtp_end"].flatMap chartsOf ++ fixedCharts).Nodup := by
  decide +kernel

/-! ### The charts of the limits -/

/-- The shared vectors when a tick calls `tcpserverlimits_print`. -/
def handedOver (s : System) (t : ℕ → Turn) : SmtpStatisticsVector :=
  (turns s.aggregated s.watches t).2.1.limits

/-- The interval of a tick, in microseconds. -/
def lastUpdate (s : System) (reading : Timespec) : ℕ :=
  (updateTimestamp s.ratelimitsppTime reading).1

theorem silent_turns (l : Limit) (aggregated : Aggregated) (watches : List Watch) (t : ℕ → Turn) :
    Silent (limitChart l) (turns aggregated watches t).2.2 := by
  induction watches generalizing aggregated t with
  | nil => exact ⟨rfl, List.not_mem_nil⟩
  | cons w watches ih => exact (silent_print l w.dirName _ _).append (ih _ _)

/-- In a tick only `tcpserverlimits_print` writes to the charts of the limits. -/
theorem tick_stdout (l : Limit) (s : System) (t : ℕ → Turn) (reading : Timespec) :
    ∃ before, Silent (limitChart l) before ∧ (tick s t reading).stdout =
      before ++ (tcpserverlimitsPrint (handedOver s t) (lastUpdate s reading)).2 := by
  refine ⟨_, (silent_turns l s.aggregated s.watches t).append ?_, rfl⟩
  apply silent_block
  cases l <;> decide

theorem silent_printHdr (chart name : Bytes) (data : Data) :
    Silent chart (data.printHdr name) := by
  cases data <;> exact ⟨rfl, List.not_mem_nil⟩

/-- At the start charts are defined, but none begins. -/
theorem start_silent (chart : Bytes) (entries : List DirEntry) (hasQueue : Bool)
    (readings : ℕ → Timespec) (ratelimitsppTime : Timespec) :
    Silent chart (start entries hasQueue readings ratelimitsppTime).stdout := by
  have hhdr : Silent chart ratelimitsppPrintHdr := ⟨rfl, List.not_mem_nil⟩
  refine Silent.append ?_ hhdr
  apply silent_flatMap
  intro w
  exact silent_printHdr chart w.1 w.2

/-! ### The charts of a run -/

/-- The charts that the headers of the watchers define. -/
def headers (watches : List Watch) : List Bytes :=
  watches.flatMap fun w => defined (w.data.printHdr w.dirName)

theorem printHdr_lines (name : Bytes) (lines : List Line) (data : Data) :
    (lines.foldl (fun data line => data.process line) data).printHdr name =
      data.printHdr name := by
  induction lines generalizing data with
  | nil => rfl
  | cons line lines ih =>
      rw [List.foldl_cons, ih]
      cases data <;> rfl

theorem printHdr_collect (name : Bytes) (lines : List Line) (measured : QueueStatistics)
    (data : Data) : (data.collect lines measured).printHdr name = data.printHdr name := by
  cases data with
  | queue d => rfl
  | send d => exact printHdr_lines name lines (.send d)
  | smtp d => exact printHdr_lines name lines (.smtp d)

theorem printHdr_postprocess (name : Bytes) (aggregated : Aggregated) (data : Data) :
    (data.postprocess aggregated).1.printHdr name = data.printHdr name := by
  cases data <;> rfl

theorem printHdr_clear (name : Bytes) (data : Data) :
    data.clear.printHdr name = data.printHdr name := by
  cases data <;> rfl

/-- One turn of the loop begins the charts of its watcher, and leaves it the
same charts. -/
theorem turn_charts (aggregated : Aggregated) (w : Watch) (t : Turn) :
    begun (turn aggregated w t).2.2 = defined (w.data.printHdr w.dirName) ∧
      (turn aggregated w t).1.data.printHdr (turn aggregated w t).1.dirName =
        w.data.printHdr w.dirName := by
  simp only [turn, begun_print, printHdr_clear, printHdr_postprocess, printHdr_collect, and_self]

theorem turns_charts (aggregated : Aggregated) (watches : List Watch) (t : ℕ → Turn) :
    begun (turns aggregated watches t).2.2 = headers watches ∧
      headers (turns aggregated watches t).1 = headers watches := by
  induction watches generalizing aggregated t with
  | nil => exact ⟨rfl, rfl⟩
  | cons w watches ih =>
      obtain ⟨hbegun, hsame⟩ := turn_charts aggregated w (t 0)
      obtain ⟨ihbegun, ihsame⟩ := ih (turn aggregated w (t 0)).2.1 fun i => t (i + 1)
      simp only [headers, List.flatMap_cons] at ihbegun ihsame ⊢
      constructor
      · rw [← hbegun, ← ihbegun]
        exact begun_append _ _
      · simp only [turns, List.flatMap_cons, hsame, ihsame]

theorem begun_printNewdim (limitName : Bytes) (time : ℕ) (l : LimitT) :
    begun (printNewdim limitName time l) = [limitId limitName] := rfl

theorem begun_printLimits {limit : List LimitT} {limitName chart : Bytes} {time : ℕ}
    (h : chart ∈ begun (printLimits limit limitName time).2) : chart = limitId limitName := by
  rw [printLimits_snd, begun_append, List.mem_append] at h
  rcases h with h | h
  · split_ifs at h
    · rw [printKnown, ndBeginTime, begun_block] at h
      exact List.mem_singleton.mp h
    · cases h
  · rw [begun, List.filterMap_flatMap] at h
    obtain ⟨l, -, hl⟩ := List.mem_flatMap.mp h
    exact List.mem_singleton.mp ((begun_printNewdim limitName time l) ▸ hl)

theorem begun_tcpserverlimitsPrint {limits : SmtpStatisticsVector} {time : ℕ} {chart : Bytes}
    (h : chart ∈ begun (tcpserverlimitsPrint limits time).2) :
    chart ∈ limitOrder.map limitChart := by
  rw [tcpserverlimitsPrint, begun, List.filterMap_flatMap] at h
  obtain ⟨l, hl, hchart⟩ := List.mem_flatMap.mp h
  exact List.mem_map.mpr ⟨l, hl, (begun_printLimits hchart).symm⟩

/-- A tick begins the charts of the watchers and the shared ones. -/
theorem tick_charts (s : System) (t : ℕ → Turn) (reading : Timespec) :
    headers (tick s t reading).watches = headers s.watches ∧
      ∀ chart ∈ begun (tick s t reading).stdout, chart ∈ headers s.watches ++ fixedCharts := by
  obtain ⟨hbegun, hsame⟩ := turns_charts s.aggregated s.watches t
  refine ⟨hsame, fun chart hchart => ?_⟩
  simp only [tick, begun_append, hbegun, List.append_assoc, List.mem_append] at hchart
  rw [List.mem_append]
  rcases hchart with hwatch | hratelimitspp | hlimits
  · exact .inl hwatch
  · rw [ratelimitsppPrint, ndBeginTime, begun_block, List.mem_singleton] at hratelimitspp
    subst hratelimitspp
    exact .inr (by decide +kernel)
  · exact .inr (List.mem_append_right _ (begun_tcpserverlimitsPrint hlimits))

theorem readLines_headers (watches : List Watch) (i : ℕ) (lines : List Line) :
    headers (watches.modify i fun w => w.readLines lines) = headers watches := by
  induction watches generalizing i with
  | nil => cases i <;> rfl
  | cons w watches ih =>
      cases i with
      | zero => simp [headers, Watch.readLines, printHdr_lines]
      | succ i => simpa [headers] using ih i

/-- In a run only charts of the watchers and shared charts begin. -/
theorem after_charts {s : System} (hstart : begun s.stdout = []) (ops : List Op) :
    headers (after s ops).watches = headers s.watches ∧
      ∀ chart ∈ begun (after s ops).stdout, chart ∈ headers s.watches ++ fixedCharts := by
  induction ops using List.reverseRecOn with
  | nil => exact ⟨rfl, by simp [after, hstart]⟩
  | append_singleton ops op ih =>
      obtain ⟨hsame, hcharts⟩ := ih
      rw [after_concat]
      cases op with
      | event i lines => exact ⟨(readLines_headers _ i lines).trans hsame, hcharts⟩
      | tick t reading =>
          obtain ⟨hticked, hbegun⟩ := tick_charts (after s ops) t reading
          refine ⟨hticked.trans hsame, fun chart hchart => ?_⟩
          simp only [step, begun_append, List.mem_append] at hchart
          rcases hchart with hbefore | hnow
          · exact hcharts chart hbefore
          · exact hsame ▸ hbegun chart hnow

theorem found_charts {entries : List DirEntry} {hasQueue : Bool} {w : Bytes × Data} {chart : Bytes}
    (hw : w ∈ detectLogDirs entries ++ appendQueueWatcher hasQueue)
    (h : chart ∈ defined (w.2.printHdr w.1)) :
    chart ∈ ((detectLogDirs entries).map Prod.fst).flatMap chartsOf ++ fixedCharts := by
  rw [List.mem_append]
  rcases List.mem_append.mp hw with hdir | hqueue
  · refine .inl (List.mem_flatMap.mpr ⟨w.1, List.mem_map_of_mem hdir, ?_⟩)
    simpa only [chartsOf, mem_detectLogDirs hdir] using h
  · unfold appendQueueWatcher at hqueue
    split_ifs at hqueue
    · obtain rfl := List.mem_singleton.mp hqueue
      exact .inr (List.mem_append_left _ (List.mem_append_left _ h))
    · cases hqueue

/-- The charts a run begins are those of the directories found at the start. -/
theorem run_charts (entries : List DirEntry) (hasQueue : Bool) (readings : ℕ → Timespec)
    (ratelimitsppTime : Timespec) (ops : List Op) :
    let s := start entries hasQueue readings ratelimitsppTime
    ∀ chart ∈ begun (after s ops).stdout,
      chart ∈ ((detectLogDirs entries).map Prod.fst).flatMap chartsOf ++ fixedCharts := by
  intro s chart hchart
  have hnone : begun s.stdout = [] := List.eq_nil_iff_forall_not_mem.mpr fun c =>
    (start_silent c entries hasQueue readings ratelimitsppTime).2
  have hin := (after_charts hnone ops).2 chart hchart
  rcases List.mem_append.mp hin with hwatch | hfixed
  · obtain ⟨w, hw, hdef⟩ := List.mem_flatMap.mp hwatch
    obtain ⟨i, hi, rfl⟩ := List.mem_mapIdx.mp hw
    exact found_charts (List.getElem_mem hi) hdef
  · exact List.mem_append_right _ hfixed

end NetdataPlugins.QmailCharts
