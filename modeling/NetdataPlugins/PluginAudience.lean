import NetdataPlugins.CollectorFrame
import NetdataPlugins.PluginRuns

/-!
# The collector of a plugin

An `Audience` says what a strict collector has to know for the next print of each
record and for the end of a tick. If each watcher has charts of its own, the
collector knows this all the time, and in every run it takes the whole output.
-/
namespace NetdataPlugins.PluginLoop
open MemoryBlock Netdata Timer FileWatch IndexedLoop LogWatch Runs DeclaredOnce
open DeclaredOnce.Collector (Takes Stable Unheard stable_unheard listen_take)

variable {bufsiz : ℕ} {ι γ δ κ : Type}

/-- `Ready` is what the collector knows of the charts of a record, `Shared` what
it knows of those of the end of a tick. -/
structure Audience {P : Plugin ι γ δ} (L : Interface P κ) where
  Initial : δ → Prop
  Ready : Bytes → δ → Collector → Prop
  Shared : γ → Collector → Prop
  stable : ∀ name d, Stable (· ∈ L.charts name (L.kind d)) (Ready name d)
  stable_shared : ∀ g, Stable (· ∈ L.epilogueCharts) (Shared g)
  printHdr : ∀ name d, Initial d → Takes (· ∈ L.charts name (L.kind d))
    (Unheard (· ∈ L.charts name (L.kind d))) (P.printHdr name d) (Ready name d)
  process : ∀ x mem d d' name c, 0 ∈ mem → P.process x mem d = some d' → Ready name d c →
    Ready name d' c
  measure : ∀ x d name c, Ready name d c → Ready name (P.measure x d) c
  postprocess : ∀ g d name c, Ready name d c → Shared g c →
    Ready name (P.postprocess g d).1 c ∧ Shared (P.postprocess g d).2 c
  print : ∀ name d time, Takes (· ∈ L.charts name (L.kind d)) (Ready name d)
    (P.print name d time).2 (Ready name (P.print name d time).1)
  clear : ∀ d name c, Ready name d c → Ready name (P.clear d) c
  epilogue : ∀ g reading, Takes (· ∈ L.epilogueCharts) (Shared g) (P.epilogue g reading).2
    (Shared (P.epilogue g reading).1)

namespace Interface
variable {P : Plugin ι γ δ} (L : Interface P κ)

/-- The charts of a watcher. -/
def fills (w : Watch bufsiz δ) : List Bytes := L.charts (w.name P) (L.kind w.data)

theorem map_fills {ws ws' : List (Watch bufsiz δ)}
    (h : ws'.map L.signature = ws.map L.signature) : ws'.map L.fills = ws.map L.fills := by
  have hfills : (L.fills : Watch bufsiz δ → _) =
      (fun x => L.charts (P.label x.1.1 x.1.2.1) x.2) ∘ L.signature := rfl
  rw [hfills, ← List.map_map, h, List.map_map]

/-- Each watcher has charts of its own. -/
structure OwnCharts (watches : List (Watch bufsiz δ)) : Prop where
  apart : (watches.map L.fills).Pairwise List.Disjoint
  epilogue : ∀ w ∈ watches, List.Disjoint (L.fills w) L.epilogueCharts

variable {L}

/-- Watchers that differ in something have charts of their own if the charts of
different ones differ. -/
theorem ownCharts_of_nodup {α : Type*} {g : Watch bufsiz δ → α} {ws : List (Watch bufsiz δ)}
    (h : (ws.map g).Nodup)
    (happart : ∀ v ∈ ws, ∀ w ∈ ws, g v ≠ g w → List.Disjoint (L.fills v) (L.fills w))
    (hepilogue : ∀ w ∈ ws, List.Disjoint (L.fills w) L.epilogueCharts) : L.OwnCharts ws := by
  refine ⟨List.pairwise_map.mpr ?_, hepilogue⟩
  exact (List.pairwise_map.mp h).imp_of_mem fun {v w} hv hw hne => happart v hv w hw hne

theorem OwnCharts.of_fills {ws ws' : List (Watch bufsiz δ)} (h : L.OwnCharts ws)
    (hsame : ws'.map L.fills = ws.map L.fills) : L.OwnCharts ws' := by
  refine ⟨hsame ▸ h.apart, fun w hw => ?_⟩
  have hfills : L.fills w ∈ ws.map L.fills := hsame ▸ List.mem_map_of_mem hw
  obtain ⟨v, hv, heq⟩ := List.mem_map.mp hfills
  exact heq ▸ h.epilogue v hv

theorem OwnCharts.disjoint {ws : List (Watch bufsiz δ)} (h : L.OwnCharts ws) {i j : ℕ}
    {v w : Watch bufsiz δ} (hv : ws[i]? = some v) (hw : ws[j]? = some w) (hne : i ≠ j) :
    List.Disjoint (L.fills v) (L.fills w) := by
  have happart := List.pairwise_iff_getElem.mp (List.pairwise_map.mp h.apart)
  obtain ⟨hi, rfl⟩ := List.getElem?_eq_some_iff.mp hv
  obtain ⟨hj, rfl⟩ := List.getElem?_eq_some_iff.mp hw
  rcases Nat.lt_or_gt_of_ne hne with hlt | hlt
  · exact happart i j hi hj hlt
  · exact fun _ hv hw => happart j i hj hi hlt hw hv

end Interface

/-- A strict collector takes the whole output, with no dimension declared twice;
and as long as the program runs, no chart is left open. -/
def Taken (s : System bufsiz γ δ) : Prop :=
  ∃ c, Collector.empty.listen s.stdout = some c ∧ c.dimensions.Nodup ∧
    (s.run = true → c.filling = none)

namespace Audience
variable {P : Plugin ι γ δ} {L : Interface P κ} (A : Audience L)

/-- The collector knows what it has to know for a watcher. -/
def ready (w : Watch bufsiz δ) (c : Collector) : Prop := A.Ready (w.name P) w.data c

theorem stable_ready (w : Watch bufsiz δ) : Stable (· ∈ L.fills w) (A.ready w) := A.stable _ _

section Watcher
variable {A} {f : LogFile} {a : Answers ι} {w w' : Watch bufsiz δ} {c : Collector}

theorem processLines {input : ℕ → ι} {lines new : List Bytes} {name : Bytes} {d d' : δ}
    (hlines : List.Forall₂ PointsTo lines new) (hc : A.Ready name d c)
    (h : PluginLoop.processLines P input lines d = some d') : A.Ready name d' c := by
  induction hlines generalizing input d with
  | nil =>
      cases h
      exact hc
  | @cons mem line lines new hline _ ih =>
      simp only [PluginLoop.processLines, Option.bind_eq_bind, Option.bind_eq_some_iff] at h
      obtain ⟨d₁, h₁, h⟩ := h
      exact ih (A.process _ _ _ _ _ _ (hline.subset (by simp)) h₁ hc) h

theorem read (h : Followed w) (hc : A.ready w c) (hr : w.readLogFile P f a = some w') :
    Followed w' ∧ A.ready w' c := by
  obtain ⟨hfollowed, lines, new, hnew, -, hdata⟩ := readLogFile_followed h hr
  refine ⟨hfollowed, ?_⟩
  rw [ready, Watch.name_origin P (readLogFile_origin hr).1]
  exact processLines hnew hc hdata

theorem event {e : InotifyEvent} (h : Followed w) (hc : A.ready w c)
    (hw : w.processFsEvent P e f a = some w') : Followed w' ∧ A.ready w' c := by
  rcases processFsEvent_cases hw with ⟨-, rfl⟩ | ⟨-, v, hv, rfl⟩
  · exact ⟨h, hc⟩
  · obtain ⟨hfollowed, hready⟩ := read h hc hv
    exact ⟨hfollowed.reopenLogFile, hready⟩

theorem collect {t : Turn ι} (h : Followed w) (hc : A.ready w c)
    (hw : w.collect P f t = some w') : Followed w' ∧ A.ready w' c := by
  unfold Watch.collect at hw
  split at hw
  · exact read h hc hw
  · cases hw
    exact ⟨h, A.measure _ _ _ _ hc⟩

end Watcher

/-! ### Runs -/

/-- The collector has taken the whole output, and knows what it has to know. -/
structure Hears (s : System bufsiz γ δ) (c : Collector) : Prop where
  listened : Collector.empty.listen s.stdout = some c
  closed : c.filling = none
  ready : ∀ w ∈ s.watches, A.ready w c
  shared : A.Shared s.shared c

/-- While the program runs, all is heard. The output of a print that fails is
taken, too; only what is printed at the end of the same tick may be lost. -/
structure Heard (s : System bufsiz γ δ) : Prop where
  own : L.OwnCharts s.watches
  stopping : s.run = false → s.phase = .polling ∨ s.phase = .ticking s.watches.length
  followed : ∀ w ∈ s.watches, Followed w
  heard : s.run = true → ∃ c, A.Hears s c
  accepted : (s.phase = .polling → ∀ g reading, (P.epilogue g reading).2 = []) →
    ∃ c, Collector.empty.listen s.stdout = some c

variable {A} {s s' : System bufsiz γ δ}

/-- What the watchers need depends on their charts. -/
theorem stable_watches (A : Audience L) (ws : List (Watch bufsiz δ)) :
    Stable (fun chart => ∃ w ∈ ws, chart ∈ L.fills w) fun c => ∀ w ∈ ws, A.ready w c :=
  fun c d hagree hc w hw => A.stable_ready w c d (hagree.mono fun _ h => ⟨w, hw, h⟩) (hc w hw)

theorem Heard.of_hears {c : Collector} (hown : L.OwnCharts s.watches) (hrun : s.run = true)
    (hfollowed : ∀ w ∈ s.watches, Followed w) (hc : A.Hears s c) : A.Heard s :=
  ⟨hown, fun hstop => absurd hstop (by simp [hrun]), hfollowed, fun _ => ⟨c, hc⟩,
    fun _ => ⟨c, hc.listened⟩⟩

theorem Heard.event {answers : ℕ → Answers ι} (h : A.Heard s)
    (hs : exec P s (.event answers) = some s') : A.Heard s' := by
  have hsame := exec_signature L hs
  obtain ⟨timer, e, queue, ws, hphase, -, hws, rfl⟩ := event_cases hs
  have hrun : s.run = true := by
    by_contra hstop
    rcases h.stopping (by simpa using hstop) with hp | hp <;> simp [hphase] at hp
  obtain ⟨c, hc⟩ := h.heard hrun
  obtain ⟨hall, -⟩ := forEach_keeps (Q := fun w => Followed w ∧ A.ready w c) (g := fun _ => ())
    (fun i w w' hw hw' => ⟨event hw.1 hw.2 hw', rfl⟩)
    (fun w hw => ⟨h.followed w hw, hc.ready w hw⟩) hws
  exact .of_hears (h.own.of_fills (L.map_fills hsame)) hrun (fun w hw => (hall w hw).1)
    ⟨hc.listened, hc.closed, fun w hw => (hall w hw).2, hc.shared⟩

/-- What a collector knows when the `i`-th watcher has printed. -/
theorem Hears.report {i : ℕ} {w v : Watch bufsiz δ} {c : Collector} {shared : γ}
    {out : List Command} {data : δ} {time : ℕ} (hown : L.OwnCharts s.watches) (hc : A.Hears s c)
    (hw : s.watches[i]? = some w) (hfills : L.fills v = L.fills w) (hv : A.ready v c)
    (hshared : A.Shared shared c) (hprint : P.print (v.name P) v.data time = (data, out)) :
    ∃ d, c.listen out = some d ∧ d.filling = none ∧ A.Ready (v.name P) data d ∧
      (∀ j u, j ≠ i → s.watches[j]? = some u → A.ready u d) ∧ A.Shared shared d := by
  have hout := A.print (v.name P) v.data time
  rw [hprint] at hout
  have hothers : Stable (fun chart => (∃ j u, j ≠ i ∧ s.watches[j]? = some u ∧
      chart ∈ L.fills u) ∨ chart ∈ L.epilogueCharts) fun c =>
      (∀ j u, j ≠ i → s.watches[j]? = some u → A.ready u c) ∧ A.Shared shared c :=
    fun c d hagree ⟨hready, hshared⟩ =>
      ⟨fun j u hj hu => A.stable_ready u c d
        (hagree.mono fun chart hchart => .inl ⟨j, u, hj, hu, hchart⟩) (hready j u hj hu),
        A.stable_shared shared c d (hagree.mono fun chart hchart => .inr hchart) hshared⟩
  have hframe := hout.frame hothers fun chart (hchart : chart ∈ L.fills v) hother => by
    rw [hfills] at hchart
    rcases hother with ⟨j, u, hj, hu, hmem⟩ | hmem
    · exact hown.disjoint hw hu hj.symm hchart hmem
    · exact hown.epilogue w (List.mem_of_getElem? hw) hchart hmem
  obtain ⟨d, hd, hclosed, hready, hrest, hshared⟩ := hframe.listen c hc.closed
    ⟨hv, fun j u _ hu => hc.ready u (List.mem_of_getElem? hu), hshared⟩
  exact ⟨d, hd, hclosed, hready, hrest, hshared⟩

theorem Heard.turn {t : Turn ι} (h : A.Heard s) (hs : exec P s (.turn t) = some s') :
    A.Heard s' := by
  have hsame := L.map_fills (exec_signature L hs)
  obtain ⟨i, w, v, hphase, hw, hv, rfl⟩ := turn_cases hs
  have hrun : s.run = true := by
    by_contra hstop
    rcases h.stopping (by simpa using hstop) with hp | hp
    · simp [hphase] at hp
    · rw [hphase, Phase.ticking.injEq] at hp
      simp [hp] at hw
  obtain ⟨c, hc⟩ := h.heard hrun
  have hmem := List.mem_of_getElem? hw
  obtain ⟨hfollowed, hready⟩ := collect (h.followed w hmem) (hc.ready w hmem) hv
  obtain ⟨post, data, shared, time, out, hpost, -, hprint, hr⟩ := report_cases (P := P) s i v t
  obtain ⟨hready, hshared⟩ := A.postprocess s.shared v.data _ c hready hc.shared
  rw [hpost] at hready hshared
  have hkind : L.kind post = L.kind w.data := by
    rw [← L.kind_collect hv, ← L.kind_postprocess s.shared v.data, hpost]
  have hname := Watch.name_origin P (collect_origin hv).1
  have hfills : L.fills { v with data := post } = L.fills w := by
    show L.charts (v.name P) (L.kind post) = L.charts (w.name P) (L.kind w.data)
    rw [hname, hkind]
  obtain ⟨d, hd, hclosed, hprinted, hothers, hshared⟩ :=
    hc.report (v := { v with data := post }) h.own hw hfills hready hshared hprint
  have hall (x : Watch bufsiz δ) (hx : Followed x) : ∀ u ∈ s.watches.set i x, Followed u :=
    fun u hu => (List.mem_or_eq_of_mem_set hu).elim (h.followed u) fun heq => heq ▸ hx
  have hlistened := Collector.listen_append hc.listened
  rcases hr with ⟨-, hr⟩ | ⟨n, -, hr⟩
  all_goals rw [hr] at hsame ⊢
  · refine .of_hears (h.own.of_fills hsame) hrun (hall _ hfollowed)
      ⟨(hlistened out).trans hd, hclosed, fun u hu => ?_, hshared⟩
    obtain ⟨j, hu⟩ := List.getElem?_of_mem hu
    rcases eq_or_ne j i with rfl | hne
    · rw [List.getElem?_set_self (List.getElem?_eq_some_iff.mp hw).1, Option.some.injEq] at hu
      subst hu
      exact A.clear _ _ _ hprinted
    · rw [List.getElem?_set_ne hne.symm] at hu
      exact hothers j u hne hu
  · obtain ⟨e, he⟩ := listen_take hd n
    exact ⟨h.own.of_fills hsame, fun _ => .inr (by simp), hall _ hfollowed, fun hr => by simp at hr,
      fun _ => ⟨e, (hlistened _).trans he⟩⟩

theorem Heard.finish {reading : Timespec} {failed : Option ℕ} (h : A.Heard s)
    (hs : exec P s (.finish reading failed) = some s') : A.Heard s' := by
  obtain ⟨hphase, rfl⟩ := finish_cases hs
  obtain ⟨shared, out, hep, hr⟩ := conclude_cases (P := P) s reading failed
  have hout := A.epilogue s.shared reading
  rw [hep] at hout
  have hsilent (hmute : ∀ g reading, (P.epilogue g reading).2 = []) :
      out = [] ∧ ∃ c, Collector.empty.listen s.stdout = some c :=
    ⟨by rw [← hmute s.shared reading, hep], h.accepted fun _ => hmute⟩
  rcases hr with ⟨-, hr⟩ | ⟨n, -, hr⟩
  all_goals rw [hr]
  · refine ⟨h.own, fun _ => .inl rfl, h.followed, fun hrun => ?_, fun hmute => ?_⟩
    · obtain ⟨c, hc⟩ := h.heard hrun
      have hframe := hout.frame (stable_watches A s.watches) fun chart hchart ⟨w, hw, hmem⟩ =>
        h.own.epilogue w hw hmem hchart
      obtain ⟨d, hd, hclosed, hshared, hready⟩ := hframe.listen c hc.closed ⟨hc.shared, hc.ready⟩
      exact ⟨d, (Collector.listen_append hc.listened _).trans hd, hclosed, hready, hshared⟩
    · obtain ⟨hnone, c, hc⟩ := hsilent (hmute rfl)
      exact ⟨c, by rw [hnone, List.append_nil]; exact hc⟩
  · refine ⟨h.own, fun _ => .inl rfl, h.followed, fun hrun => by simp at hrun, fun hmute => ?_⟩
    obtain ⟨hnone, c, hc⟩ := hsilent (hmute rfl)
    exact ⟨c, by rw [hnone, List.take_nil, List.append_nil]; exact hc⟩

theorem exec_heard (s : System bufsiz γ δ) (a : Step ι) (s' : System bufsiz γ δ)
    (h : A.Heard s) (hs : exec P s a = some s') : A.Heard s' := by
  cases a with
  | append key bytes =>
      cases hs
      exact ⟨h.own, h.stopping, h.followed, fun hrun => (h.heard hrun).imp fun c hc =>
        ⟨hc.listened, hc.closed, hc.ready, hc.shared⟩, h.accepted⟩
  | rotate key =>
      cases hs
      exact ⟨h.own, h.stopping, h.followed, fun hrun => (h.heard hrun).imp fun c hc =>
        ⟨hc.listened, hc.closed, hc.ready, hc.shared⟩, h.accepted⟩
  | poll signal fsEvent timer =>
      obtain ⟨hrun, -, run, phase, rfl, hstop⟩ := poll_cases hs
      obtain ⟨c, hc⟩ := h.heard hrun
      exact ⟨h.own, fun hr => .inl (hstop hr), h.followed,
        fun _ => ⟨c, hc.listened, hc.closed, hc.ready, hc.shared⟩, fun _ => ⟨c, hc.listened⟩⟩
  | event answers => exact h.event hs
  | drained =>
      obtain ⟨timer, hphase, -, rfl⟩ := drained_cases hs
      have hrun : s.run = true := by
        by_contra hstop
        rcases h.stopping (by simpa using hstop) with hp | hp <;> simp [hphase] at hp
      obtain ⟨c, hc⟩ := h.heard hrun
      exact .of_hears h.own hrun h.followed ⟨hc.listened, hc.closed, hc.ready, hc.shared⟩
  | turn t => exact h.turn hs
  | finish reading failed => exact h.finish hs

/-- The headers of the watchers and of the end of a tick. -/
theorem start_heard (hn : 0 < bufsiz) {logs : Key → LogFile} {found : List (Watch bufsiz δ)}
    {shared : γ} {readings : ℕ → Timespec} (hown : L.OwnCharts found)
    (hpreamble : Takes (· ∈ L.epilogueCharts) (Unheard (· ∈ L.epilogueCharts)) P.preamble
      (A.Shared shared))
    (hfound : ∀ w ∈ found,
      w.watcher.consumed = [] ∧ Fresh w.watcher.watch ∧ A.Initial w.data) :
    A.Heard (start P logs found shared readings) := by
  have hheaders : Takes (fun chart => ∃ w ∈ found, chart ∈ L.fills w)
      (fun c => ∀ w ∈ found, Unheard (· ∈ L.fills w) c)
      (found.flatMap fun w => P.printHdr (w.name P) w.data) fun c => ∀ w ∈ found, A.ready w c :=
    Takes.flatMap (fun w hw => A.printHdr (w.name P) w.data (hfound w hw).2.2)
      (fun w => stable_unheard _) (fun w => A.stable_ready w) (List.pairwise_map.mp hown.apart)
  have hall := hheaders.frame (stable_unheard (· ∈ L.epilogueCharts))
    fun chart ⟨w, hw, hmem⟩ => hown.epilogue w hw hmem
  obtain ⟨c, hc, hclosed, hready, hunheard⟩ := hall.listen Collector.empty rfl
    ⟨fun _ _ _ h => absurd h List.not_mem_nil, fun _ h => absurd h List.not_mem_nil⟩
  have hend := hpreamble.frame (stable_watches A found) fun chart hchart ⟨w, hw, hmem⟩ =>
    hown.epilogue w hw hmem hchart
  obtain ⟨d, hd, hclosed, hshared, hready⟩ := hend.listen c hclosed ⟨hunheard, hready⟩
  have hsame : (start P logs found shared readings).watches.map L.fills = found.map L.fills :=
    List.ext_getElem? fun i => by
      simp only [start, List.getElem?_map, List.getElem?_mapIdx, Option.map_map]
      rfl
  refine .of_hears (hown.of_fills hsame) rfl (fun w hw => ?_)
    ⟨(Collector.listen_append hc _).trans hd, hclosed, fun w hw => ?_, hshared⟩
  all_goals obtain ⟨i, hi, rfl⟩ := List.mem_mapIdx.mp hw
  · obtain ⟨hconsumed, hfresh, -⟩ := hfound _ (List.getElem_mem hi)
    exact .of_fresh hn hconsumed hfresh
  · exact hready found[i] (List.getElem_mem hi)

/-- In every run a strict collector takes the whole output. -/
theorem run_heard (hn : 0 < bufsiz) {logs : Key → LogFile} {found : List (Watch bufsiz δ)}
    {shared : γ} {readings : ℕ → Timespec} (hown : L.OwnCharts found)
    (hpreamble : Takes (· ∈ L.epilogueCharts) (Unheard (· ∈ L.epilogueCharts)) P.preamble
      (A.Shared shared))
    (hfound : ∀ w ∈ found,
      w.watcher.consumed = [] ∧ Fresh w.watcher.watch ∧ A.Initial w.data)
    {steps : List (Step ι)}
    (hr : run (exec P) (start P logs found shared readings) steps = some s) : A.Heard s :=
  run_preserves exec_heard (start_heard hn hown hpreamble hfound) hr

theorem Heard.taken (h : A.Heard s)
    (hrun : s.run = false → ∀ g reading, (P.epilogue g reading).2 = []) : Taken s := by
  cases hs : s.run with
  | false =>
      obtain ⟨c, hc⟩ := h.accepted fun _ => hrun hs
      exact ⟨c, hc, Collector.nodup_dimensions List.nodup_nil hc, fun h => by simp [hs] at h⟩
  | true =>
      obtain ⟨c, hc⟩ := h.heard hs
      exact ⟨c, hc.listened, Collector.nodup_dimensions List.nodup_nil hc.listened,
        fun _ => hc.closed⟩

end Audience
end NetdataPlugins.PluginLoop
