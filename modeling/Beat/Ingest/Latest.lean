import Beat.Lib.Instant
import Beat.Lib.Series

/-!
# Scans for the latest row

The metric store reads the latest row of a range by scanning windows that grow backwards, and the
whole range at the end (`store/mts_latest_window.go`). The windows end at a probe: the end of the
range, or the clock when the range has no end.

* `scanLatestRows_plan`: when the probe hides no row of the range, the scan finds its latest row.
* `latest_scan_full`: with a bounded range nothing is hidden; without an end, rows that are further
  ahead of the clock than the allowed skew are, as soon as a window finds a row
  (`latest_scan_hides_future`).
-/

namespace Beat.Ingest

open List Instant

variable {α : Type}

def maxInt64 : Int := 9223372036854775807

def maximumAgentClockSkew : Int := 2 * minute

def maximumAgentSampleAge : Int := 15 * minute

/-- `latestScanWindows`. -/
def latestScanWindows : List Int :=
  [15 * minute, 2 * hour, 12 * hour, 3 * 24 * hour, 14 * 24 * hour]

/-- `latestScanPlan`: the windows that start inside the range, then the range. -/
def latestScanPlan (start stop probeEnd : Int) : List (Int × Int) :=
  ((latestScanWindows.map fun window => (probeEnd - window, probeEnd)).takeWhile fun span =>
    decide (start < span.1) && decide (span.1 ≤ stop)) ++ [(start, stop)]

/-- One scan: the newest row of an inclusive range that the selection takes. -/
def scanRange (s : Series α) (q : Int × α → Bool) (span : Int × Int) : Option (Int × α) :=
  s.latest fun p => decide (span.1 ≤ p.1) && decide (p.1 ≤ span.2) && q p

/-- `scanLatestRows`: the first scan that finds a row. -/
def scanLatestRows (s : Series α) (q : Int × α → Bool) : List (Int × Int) → Option (Int × α)
  | [] => none
  | span :: plan =>
    match scanRange s q span with
    | some row => some row
    | none => scanLatestRows s q plan

/-- `latestProbeEnd`: a range without an end is probed from the clock. -/
def latestProbeEnd (stop clock : Int) : Int :=
  if stop = maxInt64 then clock + maximumAgentClockSkew else stop

section scan

variable {s : Series α} {q : Int × α → Bool} {start stop probeEnd : Int}

theorem scanRange_taken {span : Int × Int} {p : Int × α} :
    (decide (span.1 ≤ p.1) && decide (p.1 ≤ span.2) && q p) = true ↔ span.1 ≤ p.1 ∧ p.1 ≤ span.2 ∧ q p = true := by
  rw [Bool.and_eq_true, Bool.and_eq_true, decide_eq_true_eq, decide_eq_true_eq, and_assoc]

/-- A row that a window finds is the latest of the range. -/
theorem scanRange_window (h : ∀ p ∈ s, q p = true → start ≤ p.1 → (p.1 ≤ probeEnd ↔ p.1 ≤ stop)) {from' : Int}
    (hfrom : start ≤ from') {row : Int × α} (hrow : scanRange s q (from', probeEnd) = some row) :
    scanRange s q (start, stop) = some row := by
  obtain ⟨hmem, htaken, hlast⟩ := Series.latest_eq_some hrow
  obtain ⟨hlo, hhi, hq⟩ := scanRange_taken.mp htaken
  have hstart := hfrom.trans hlo
  refine Series.latest_eq_of_max hmem
    (scanRange_taken.mpr ⟨hstart, (h row hmem hq hstart).mp hhi, hq⟩) fun x hx hxtaken => ?_
  obtain ⟨hxstart, hxhi, hxq⟩ := scanRange_taken.mp hxtaken
  by_cases hxlo : from' ≤ x.1
  · exact hlast x hx (scanRange_taken.mpr ⟨hxlo, (h x hx hxq hxstart).mpr hxhi, hxq⟩)
  · exact le_of_lt (lt_of_lt_of_le (not_le.mp hxlo) hlo)

/-- When each probe that finds a row finds the latest of the range, so does the scan. -/
theorem scanLatestRows_append {spans : List (Int × Int)} {full : Int × Int}
    (h : ∀ span ∈ spans, ∀ row, scanRange s q span = some row → scanRange s q full = some row) :
    scanLatestRows s q (spans ++ [full]) = scanRange s q full := by
  induction spans with
  | nil =>
    rw [nil_append, scanLatestRows]
    cases scanRange s q full <;> rfl
  | cons span spans ih =>
    rw [cons_append, scanLatestRows]
    cases hrow : scanRange s q span with
    | none => exact ih fun x hx => h x (mem_cons_of_mem _ hx)
    | some row => exact (h span mem_cons_self row hrow).symm

/-- The scan returns the row of a probe, once one finds any. -/
theorem scanLatestRows_probe {spans rest : List (Int × Int)} {span : Int × Int} (hspan : span ∈ spans)
    (hsome : (scanRange s q span).isSome) :
    ∃ hit ∈ spans, ∃ row, scanRange s q hit = some row ∧ scanLatestRows s q (spans ++ rest) = some row := by
  induction spans with
  | nil => cases hspan
  | cons x spans ih =>
    rw [cons_append, scanLatestRows]
    cases hrow : scanRange s q x with
    | some row => exact ⟨x, mem_cons_self, row, hrow, rfl⟩
    | none =>
      have hne : span ≠ x := fun heq => by simp [heq, hrow] at hsome
      obtain ⟨hit, hmem, hfound⟩ := ih ((mem_cons.mp hspan).resolve_left hne)
      exact ⟨hit, mem_cons_of_mem _ hmem, hfound⟩

/-- The probes of a plan. -/
def probes (start stop probeEnd : Int) : List (Int × Int) :=
  (latestScanWindows.map fun window => (probeEnd - window, probeEnd)).takeWhile fun span =>
    decide (start < span.1) && decide (span.1 ≤ stop)

theorem mem_probes {span : Int × Int} (h : span ∈ probes start stop probeEnd) :
    ∃ window ∈ latestScanWindows, span = (probeEnd - window, probeEnd) ∧ start < probeEnd - window := by
  obtain ⟨window, hwindow, rfl⟩ := mem_map.mp ((takeWhile_sublist _).subset h)
  have hkept := all_eq_true.mp all_takeWhile _ h
  simp only [Bool.and_eq_true, decide_eq_true_eq] at hkept
  exact ⟨window, hwindow, rfl, hkept.1⟩

/-- A window that starts in the range is probed: the shorter ones before it do too. -/
theorem window_mem_probes {window : Int} (hwindow : window ∈ latestScanWindows) (hstart : start < probeEnd - window)
    (hstop : probeEnd ≤ stop) : (probeEnd - window, probeEnd) ∈ probes start stop probeEnd := by
  have hsorted : latestScanWindows.Pairwise (· ≤ ·) := by decide
  have hpos : ∀ w ∈ latestScanWindows, 0 ≤ w := by decide
  unfold probes
  generalize latestScanWindows = windows at hwindow hsorted hpos
  induction windows with
  | nil => cases hwindow
  | cons w windows ih =>
    obtain ⟨hle, hsorted⟩ := pairwise_cons.mp hsorted
    have hw : w ≤ window := (mem_cons.mp hwindow).elim (fun h => h ▸ le_rfl) (hle window)
    have hw0 := hpos w mem_cons_self
    rw [map_cons, takeWhile_cons_of_pos (by
      simp only [Bool.and_eq_true, decide_eq_true_eq]
      omega)]
    rcases mem_cons.mp hwindow with rfl | hmem
    · exact mem_cons_self
    · exact mem_cons_of_mem _ (ih hmem hsorted fun x hx => hpos x (mem_cons_of_mem _ hx))

theorem scanLatestRows_plan (h : ∀ p ∈ s, q p = true → start ≤ p.1 → (p.1 ≤ probeEnd ↔ p.1 ≤ stop)) :
    scanLatestRows s q (latestScanPlan start stop probeEnd) = scanRange s q (start, stop) := by
  refine scanLatestRows_append fun span hspan row hrow => ?_
  obtain ⟨window, -, rfl, hstart⟩ := mem_probes hspan
  exact scanRange_window h (le_of_lt hstart) hrow

/-- A selected row of the range is further ahead of the clock than the skew. -/
def Ahead (s : Series α) (q : Int × α → Bool) (start clock : Int) : Prop :=
  ∃ p ∈ s, q p = true ∧ start ≤ p.1 ∧ clock + maximumAgentClockSkew < p.1

/-- A selected row lies in a window that ends at the clock with the skew and starts inside the range. -/
def Probed (s : Series α) (q : Int × α → Bool) (start clock : Int) : Prop :=
  ∃ window ∈ latestScanWindows, start < clock + maximumAgentClockSkew - window ∧
    ∃ p ∈ s, q p = true ∧ clock + maximumAgentClockSkew - window ≤ p.1 ∧ p.1 ≤ clock + maximumAgentClockSkew

/-- The scans of `queryLatestScalarPoint` find the latest row of the range, and those of
`readAgentReceipt` do, except when the range has no end and one row is ahead of the clock while another
lies in a window. -/
theorem latest_scan_full (s : Series α) (q : Int × α → Bool) (start stop clock : Int) :
    scanLatestRows s q (latestScanPlan 0 stop stop) = scanRange s q (0, stop) ∧ ((∀ p ∈ s, p.1 ≤ maxInt64) →
        (scanLatestRows s q (latestScanPlan start stop (latestProbeEnd stop clock)) = scanRange s q (start, stop) ↔
          ¬(stop = maxInt64 ∧ Probed s q start clock ∧ Ahead s q start clock))) := by
  refine ⟨scanLatestRows_plan fun _ _ _ _ => Iff.rfl, fun hint => ?_⟩
  unfold latestProbeEnd
  by_cases hstop : stop = maxInt64
  swap
  · rw [if_neg hstop]
    exact iff_of_true (scanLatestRows_plan fun _ _ _ _ => Iff.rfl) fun h => hstop h.1
  subst hstop
  rw [if_pos rfl]
  constructor
  · -- the row of a probe is not newer than the probe's end, the row ahead is
    rintro heq ⟨-, ⟨window, hwindow, hstart, p, hp, hq, hlo, hhi⟩, x, hx, hxq, hxstart, hahead⟩
    have hprobe : _ ∈ probes start maxInt64 _ :=
      window_mem_probes hwindow hstart (le_of_lt (lt_of_lt_of_le hahead (hint x hx)))
    have hsome : (scanRange s q (clock + maximumAgentClockSkew - window, clock + maximumAgentClockSkew)).isSome := by
      rw [Option.isSome_iff_ne_none]
      intro hnone
      have hfree := Series.latest_eq_none.mp hnone p hp
      rw [scanRange_taken.mpr ⟨hlo, hhi, hq⟩] at hfree
      cases hfree
    obtain ⟨hit, hhit, row, hrow, hscan⟩ := scanLatestRows_probe hprobe hsome
    obtain ⟨w, -, rfl, -⟩ := mem_probes hhit
    obtain ⟨-, -, hmax⟩ := Series.latest_eq_some (heq.symm.trans hscan)
    have hend := (scanRange_taken.mp (Series.latest_eq_some hrow).2.1).2.1
    have hle := hmax x hx (scanRange_taken.mpr ⟨hxstart, hint x hx, hxq⟩)
    exact absurd (hle.trans hend) (not_le.mpr hahead)
  · intro h
    by_cases hahead : Ahead s q start clock
    · refine scanLatestRows_append fun span hspan row hrow => ?_
      obtain ⟨window, hwindow, rfl, hstart⟩ := mem_probes hspan
      obtain ⟨hmem, htaken, -⟩ := Series.latest_eq_some hrow
      obtain ⟨hlo, hhi, hq⟩ := scanRange_taken.mp htaken
      exact absurd ⟨rfl, ⟨window, hwindow, hstart, row, hmem, hq, hlo, hhi⟩, hahead⟩ h
    · refine scanLatestRows_plan fun p hp hq hstart => ⟨fun _ => hint p hp, fun _ => ?_⟩
      exact not_lt.mp fun hlt => hahead ⟨p, hp, hq, hstart, hlt⟩

end scan

/-- A row at the clock, and one three minutes ahead of it. -/
def skewedSeries : Series Unit :=
  ⟨[(hour, ()), (hour + 3 * minute, ())], by decide +kernel⟩

theorem latest_scan_full_skewed : scanLatestRows skewedSeries (fun _ => true)
        (latestScanPlan 0 maxInt64 (latestProbeEnd maxInt64 (hour + 2 * minute))) =
      scanRange skewedSeries (fun _ => true) (0, maxInt64) :=
  ((latest_scan_full skewedSeries (fun _ => true) 0 maxInt64 (hour + 2 * minute)).2 (by decide +kernel)).mpr
    fun h => absurd h.2.2 (by unfold Ahead; decide +kernel)

/-- The first window that is not empty ends before the newest row. -/
theorem latest_scan_hides_future : scanLatestRows skewedSeries (fun _ => true)
        (latestScanPlan 0 maxInt64 (latestProbeEnd maxInt64 hour)) = some (hour, ()) ∧
      scanRange skewedSeries (fun _ => true) (0, maxInt64) = some (hour + 3 * minute, ()) := by
  decide +kernel

end Beat.Ingest
