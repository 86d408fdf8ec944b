import Mathlib
import WorkflowAudit.Config.Load

/-! Settings in layers: what a flag says, else what the file says, else a standard value. The main
statements say that a file is read as the settings of its layers, when settings are within bounds,
and when there are no settings to go on with. -/

namespace WorkflowAudit.Config

open Toml (Item Table)

structure Flags where
  windowDays : Option Nat := none
  runLimit : Option Nat := none
  concurrency : Option Nat := none
  deriving DecidableEq, Repr

def Flags.change (flags : Flags) (s : Settings) : Settings :=
  { s with
    windowDays := flags.windowDays.getD s.windowDays
    runLimit := flags.runLimit.getD s.runLimit
    concurrency := flags.concurrency.getD s.concurrency }

inductive IsCount (bits : Nat) : Item → Nat → Prop
  | integer {n : Nat} : n < 2 ^ bits → IsCount bits (.value (.integer n)) n

theorem IsCount.unique {bits n m : Nat} {item : Item} (hn : IsCount bits item n)
    (hm : IsCount bits item m) : n = m := by
  cases hn
  cases hm
  rfl

inductive IsDouble : Item → Float → Prop
  | float (x : Float) : IsDouble (.value (.float x)) x
  | integer (i : Int) : IsDouble (.value (.integer i)) (.ofInt i)

theorem IsDouble.unique {x y : Float} {item : Item} (hx : IsDouble item x)
    (hy : IsDouble item y) : x = y := by
  cases hx <;> cases hy <;> rfl

structure Setting (α : Type) where
  name : String
  flag : Flags → Option α
  flag_none : flag {} = none
  Says : Item → α → Prop
  unique : ∀ {item x y}, Says item x → Says item y → x = y
  standard : α
  value : Settings → α

namespace Setting

def count (name : String) (bits standard : Nat) (value : Settings → Nat)
    (flag : Flags → Option Nat := fun _ => none) (flag_none : flag {} = none := by rfl) :
    Setting Nat :=
  ⟨name, flag, flag_none, IsCount bits, IsCount.unique, standard, value⟩

def ratio (name : String) (standard : Float) (value : Settings → Float) : Setting Float :=
  ⟨name, fun _ => none, rfl, IsDouble, IsDouble.unique, standard, value⟩

def counts : List (Setting Nat) :=
  [.count "window_days" 32 30 (·.windowDays) (·.windowDays),
    .count "run_limit" 64 100 (·.runLimit) (·.runLimit),
    .count "top_n" 64 20 (·.topN),
    .count "schedule_threshold" 64 20 (·.scheduleThreshold),
    .count "concurrency" 64 8 (·.concurrency) (·.concurrency),
    .count "push_dominant_min_runs" 64 10 (·.pushDominantMinRuns),
    .count "min_runs" 64 5 (·.minRuns)]

def ratios : List (Setting Float) :=
  [.ratio "push_dominant_ratio" 0.7 (·.pushDominantRatio),
    .ratio "failure_ratio" 0.3 (·.failureRatio),
    .ratio "cancel_ratio" 0.2 (·.cancelRatio)]

structure All (P : {α : Type} → Setting α → Prop) : Prop where
  counts : ∀ f ∈ counts, P f
  ratios : ∀ f ∈ ratios, P f

section Layers

variable {α : Type} {f : Setting α} {flags : Flags} {t : Table} {x y : α}

inductive Layered (f : Setting α) (flags : Flags) (t : Table) : α → Prop
  | flag {x : α} : f.flag flags = some x → Layered f flags t x
  | file {item : Item} {x : α} : f.flag flags = none → t.lookup f.name = some item →
    f.Says item x → Layered f flags t x
  | standard : f.flag flags = none → t.lookup f.name = none → Layered f flags t f.standard

theorem Layered.unique (hx : f.Layered flags t x) (hy : f.Layered flags t y) : x = y := by
  cases hx with
  | flag hx =>
    cases hy with
    | flag hy => exact Option.some.inj (hx.symm.trans hy)
    | file hnone | standard hnone => cases hx.symm.trans hnone
  | file hnone hitem hx =>
    cases hy with
    | flag hy => cases hnone.symm.trans hy
    | file _ hitem' hy => exact f.unique hx (Option.some.inj (hitem'.symm.trans hitem) ▸ hy)
    | standard _ habsent => cases hitem.symm.trans habsent
  | standard hnone habsent =>
    cases hy with
    | flag hy => cases hnone.symm.trans hy
    | file _ hitem => cases habsent.symm.trans hitem
    | standard => rfl

theorem Layered.change (h : f.Layered {} t x) : f.Layered flags t ((f.flag flags).getD x) := by
  cases hflag : f.flag flags with
  | some y => exact .flag hflag
  | none =>
    cases h with
    | flag h => cases f.flag_none.symm.trans h
    | file _ hitem hsays => exact .file hflag hitem hsays
    | standard _ habsent => exact .standard hflag habsent

theorem layered_iff_setting? {read : Item → Option α}
    (hread : ∀ item x, read item = some x ↔ f.Says item x) :
    f.Layered {} t x ↔ Settings.setting? t f.name f.standard read = some x := by
  rw [Settings.setting?]
  constructor
  · rintro (hsome | ⟨-, hitem, hsays⟩ | ⟨-, habsent⟩)
    · cases f.flag_none.symm.trans hsome
    · rw [hitem]
      exact (hread _ _).mpr hsays
    · rw [habsent]
  · intro h
    cases hlookup : t.lookup f.name with
    | none =>
      rw [hlookup] at h
      cases h
      exact .standard f.flag_none hlookup
    | some item =>
      rw [hlookup] at h
      exact .file f.flag_none hlookup ((hread _ _).mp h)

end Layers

end Setting

namespace Settings

variable {flags : Flags} {t : Table} {s s' : Settings}

/-- Every setting comes from the first of its layers that says something. -/
def Layered (flags : Flags) (t : Table) (s : Settings) : Prop :=
  Setting.All fun f => f.Layered flags t (f.value s)

theorem Layered.change (h : s.Layered {} t) : (flags.change s).Layered flags t := by
  have hchange : Setting.All fun f =>
      f.value (flags.change s) = (f.flag flags).getD (f.value s) := by
    constructor <;> simp [Setting.counts, Setting.ratios, Setting.count, Setting.ratio, Flags.change]
  exact ⟨fun f hf => hchange.counts f hf ▸ (h.counts f hf).change,
    fun f hf => hchange.ratios f hf ▸ (h.ratios f hf).change⟩

theorem Layered.unique (h : s.Layered flags t) (h' : s'.Layered flags t) : s = s' := by
  have hcounts : ∀ f ∈ Setting.counts, f.value s = f.value s' :=
    fun f hf => (h.counts f hf).unique (h'.counts f hf)
  have hratios : ∀ f ∈ Setting.ratios, f.value s = f.value s' :=
    fun f hf => (h.ratios f hf).unique (h'.ratios f hf)
  simp only [Setting.counts, Setting.ratios, Setting.count, Setting.ratio,
    List.forall_mem_cons] at hcounts hratios
  cases s
  cases s'
  grind

theorem natural?_eq_some_iff {bits n : Nat} {item : Item} :
    natural? bits item = some n ↔ IsCount bits item n := by
  have hpow : Int.pow 2 bits = ((2 ^ bits : Nat) : Int) := by
    rw [Nat.cast_pow]
    rfl
  constructor
  · intro h
    unfold natural? at h
    split at h
    · simp only [Option.ite_none_right_eq_some, Option.some.injEq, Bool.and_eq_true,
        decide_eq_true_eq] at h
      obtain ⟨⟨hnonneg, hlt⟩, rfl⟩ := h
      obtain ⟨n, rfl⟩ := Int.eq_ofNat_of_zero_le hnonneg
      rw [hpow] at hlt
      exact .integer (Int.ofNat_lt.mp hlt)
    · cases h
  · rintro ⟨hlt⟩
    have hbound : (n : Int) < Int.pow 2 bits := hpow ▸ Int.ofNat_lt.mpr hlt
    rw [natural?, if_pos (by simpa using hbound), Int.toNat_natCast]

theorem double?_eq_some_iff {x : Float} {item : Item} :
    double? item = some x ↔ IsDouble item x := by
  constructor
  · intro h
    unfold double? at h
    split at h
    · cases h
      exact .integer _
    · cases h
      exact .float _
    · cases h
  · rintro (_ | _)
    · rfl
    · rfl

theorem ofTable?_eq_some_iff : ofTable? t = some s ↔ s.Layered {} t := by
  have hcount {name bits n value flag hflag x} :
      (Setting.count name bits n value flag hflag).Layered {} t x ↔
        setting? t name n (natural? bits) = some x :=
    Setting.layered_iff_setting? fun _ _ => natural?_eq_some_iff
  have hratio {name y value x} :
      (Setting.ratio name y value).Layered {} t x ↔ setting? t name y double? = some x :=
    Setting.layered_iff_setting? fun _ _ => double?_eq_some_iff
  rw [ofTable?]
  simp only [Option.bind_eq_bind, Option.bind_eq_some_iff, Option.pure_def, Option.some.injEq]
  constructor
  · rintro ⟨days, hdays, runs, hruns, top, htop, schedule, hschedule, concurrency, hconcurrency,
      push, hpush, pushRuns, hpushRuns, failure, hfailure, cancel, hcancel, least, hleast, rfl⟩
    refine ⟨?_, ?_⟩
    · simpa [Setting.counts, hcount] using
        ⟨hdays, hruns, htop, hschedule, hconcurrency, hpushRuns, hleast⟩
    · simpa [Setting.ratios, hratio] using ⟨hpush, hfailure, hcancel⟩
  · rintro ⟨hcounts, hratios⟩
    simp only [Setting.counts, Setting.ratios, List.forall_mem_cons, hcount, hratio] at hcounts hratios
    obtain ⟨hdays, hruns, htop, hschedule, hconcurrency, hpushRuns, hleast, -⟩ := hcounts
    obtain ⟨hpush, hfailure, hcancel, -⟩ := hratios
    exact ⟨_, hdays, _, hruns, _, htop, _, hschedule, _, hconcurrency, _, hpush, _, hpushRuns,
      _, hfailure, _, hcancel, _, hleast, rfl⟩

def IsRatio (x : Float) : Prop := x.isNaN = false ∧ 0 ≤ x ∧ x ≤ 1

structure InBounds (s : Settings) : Prop where
  windowDays : 1 ≤ s.windowDays
  concurrency : 1 ≤ s.concurrency
  ratios : ∀ f ∈ Setting.ratios, IsRatio (f.value s)

theorem isNaN_eq_false_of_le {x y : Float} (h : x ≤ y) : x.isNaN = false := by
  have hle : x.toModel.unpack.le y.toModel.unpack = true := of_decide_eq_true h
  change x.toModel.unpack.isNaN = false
  cases hx : x.toModel.unpack with
  | notANumber =>
    rw [hx] at hle
    cases hle
  | infinity | zero | finite => rfl

theorem isRatio_iff {x : Float} : isRatio x ↔ IsRatio x := by
  rw [isRatio, IsRatio, Bool.and_eq_true, decide_eq_true_iff, decide_eq_true_iff]
  exact ⟨fun h => ⟨isNaN_eq_false_of_le h.2, h⟩, And.right⟩

theorem violation?_eq_none_iff : s.violation? = none ↔ s.InBounds := by
  have hratios : s.ratios.find? (!isRatio ·.2) = none ↔
      ∀ f ∈ Setting.ratios, IsRatio (f.value s) := by
    simp [ratios, Setting.ratios, Setting.ratio, isRatio_iff]
  constructor
  · intro h
    unfold violation? at h
    split_ifs at h with hdays hconcurrency
    exact ⟨Nat.one_le_iff_ne_zero.mpr hdays, Nat.one_le_iff_ne_zero.mpr hconcurrency,
      hratios.mp (Option.map_eq_none_iff.mp h)⟩
  · rintro ⟨hdays, hconcurrency, h⟩
    rw [violation?, if_neg (Nat.one_le_iff_ne_zero.mp hdays),
      if_neg (Nat.one_le_iff_ne_zero.mp hconcurrency)]
    exact Option.map_eq_none_iff.mpr (hratios.mpr h)

theorem validate_eq_ok_iff : s.validate = .ok s' ↔ s' = s ∧ s.InBounds := by
  rw [← violation?_eq_none_iff, validate]
  cases s.violation? <;> simp [eq_comm]

end Settings

/-! ### Files of settings -/

inductive ReadsFile (world : (q : Files.Question) → q.Answer) :
    Option String → Except Files.Error String → Prop
  | named (path : String) : ReadsFile world (some path) (world (.read path))
  | standard : world (.layout standardPath) = some .file →
    ReadsFile world none (world (.read standardPath))

inductive Holds (world : (q : Files.Question) → q.Answer) (config : Option String) : Table → Prop
  | file {text : String} {t : Table} : ReadsFile world config (.ok text) →
    Toml.read? text = some t → Holds world config t
  | absent : (∀ result, ¬ReadsFile world config result) → Holds world config []

inductive Stops (world : (q : Files.Question) → q.Answer) (config : Option String) (flags : Flags) :
    Prop
  | unreadable {cause : Files.Error} : ReadsFile world config (.error cause) →
    Stops world config flags
  | malformed {text : String} : ReadsFile world config (.ok text) →
    (¬∃ t s, Toml.read? text = some t ∧ Settings.Layered {} t s) → Stops world config flags
  | fileOutOfBounds {t : Table} {s : Settings} : Holds world config t → s.Layered {} t →
    ¬s.InBounds → Stops world config flags
  | outOfBounds {t : Table} {s : Settings} : Holds world config t → s.Layered flags t →
    ¬s.InBounds → Stops world config flags

section Files

variable {world : (q : Files.Question) → q.Answer} {config : Option String} {flags : Flags}
  {t : Table} {s : Settings}

theorem ReadsFile.unique {result result' : Except Files.Error String}
    (h : ReadsFile world config result) (h' : ReadsFile world config result') :
    result = result' := by
  cases h <;> cases h' <;> rfl

theorem Holds.unique {t' : Table} (h : Holds world config t) (h' : Holds world config t') :
    t = t' := by
  cases h with
  | file hread htable =>
    cases h' with
    | file hread' htable' =>
      cases hread.unique hread'
      exact Option.some.inj (htable.symm.trans htable')
    | absent hnone => cases hnone _ hread
  | absent hnone =>
    cases h' with
    | file hread => cases hnone _ hread
    | absent => rfl

theorem answeredBy_load (path : String) : (load path).answeredBy world =
    match world (.read path) with
    | .ok text => Settings.ofText path text
    | .error cause => .error (.unreadable path cause) := by
  rw [load, Dialogue.answeredBy]
  cases world (.read path) with
  | ok text => rfl
  | error cause => rfl

theorem ofText_eq_ok_iff {path text : String} : Settings.ofText path text = .ok s ↔
    ∃ t, Toml.read? text = some t ∧ s.Layered {} t ∧ s.InBounds := by
  simp only [← Settings.ofTable?_eq_some_iff]
  rw [Settings.ofText]
  cases hread : (Toml.read? text).bind Settings.ofTable? with
  | none =>
    refine iff_of_false nofun ?_
    rintro ⟨t, ht, hs, -⟩
    rw [ht, Option.bind_some, hs] at hread
    cases hread
  | some s' =>
    obtain ⟨t, ht, hs'⟩ := Option.bind_eq_some_iff.mp hread
    change s'.validate = .ok s ↔ _
    rw [Settings.validate_eq_ok_iff]
    constructor
    · rintro ⟨rfl, hbounds⟩
      exact ⟨t, ht, hs', hbounds⟩
    · rintro ⟨t', ht', hs, hbounds⟩
      cases ht.symm.trans ht'
      cases hs'.symm.trans hs
      exact ⟨rfl, hbounds⟩

theorem layered_standard : Settings.standard.Layered {} [] :=
  Settings.ofTable?_eq_some_iff.mp rfl

theorem inBounds_standard : Settings.standard.InBounds :=
  Settings.violation?_eq_none_iff.mp (by decide +kernel)

theorem load_eq_ok_iff {path : String} (h : ReadsFile world config (world (.read path))) :
    (load path).answeredBy world = .ok s ↔
      ∃ t, Holds world config t ∧ s.Layered {} t ∧ s.InBounds := by
  rw [answeredBy_load]
  cases hresult : world (.read path) with
  | ok text =>
    rw [hresult] at h
    refine ofText_eq_ok_iff.trans (exists_congr fun t => and_congr_left fun _ => ?_)
    refine ⟨.file h, fun ht => ?_⟩
    cases ht with
    | file hread htable =>
      cases hread.unique h
      exact htable
    | absent hnone => cases hnone _ h
  | error cause =>
    rw [hresult] at h
    refine iff_of_false nofun ?_
    rintro ⟨t, ht, -⟩
    cases ht with
    | file hread => cases hread.unique h
    | absent hnone => exact hnone _ h

theorem discover_eq_ok_iff : (discover config).answeredBy world = .ok s ↔
    ∃ t, Holds world config t ∧ s.Layered {} t ∧ s.InBounds := by
  cases config with
  | some path => exact load_eq_ok_iff (.named path)
  | none =>
    by_cases hfile : world (.layout standardPath) = some .file
    · rw [discover, Dialogue.answeredBy, hfile]
      exact load_eq_ok_iff (.standard hfile)
    · have habsent : ∀ result, ¬ReadsFile world none result := by
        rintro _ ⟨⟩
        exact hfile ‹_›
      have hstandard : (discover none).answeredBy world = .ok .standard := by
        rw [discover, Dialogue.answeredBy]
        split
        · exact absurd ‹_› hfile
        · rfl
      rw [hstandard]
      constructor
      · rintro ⟨⟩
        exact ⟨[], .absent habsent, layered_standard, inBounds_standard⟩
      · rintro ⟨t, ht, hs, -⟩
        cases ht.unique (.absent habsent)
        rw [hs.unique layered_standard]

theorem stops_iff : Stops world config flags ↔
    ¬∃ t s, Holds world config t ∧ s.Layered {} t ∧ s.InBounds ∧ (flags.change s).InBounds := by
  constructor
  · rintro hstops ⟨t, s, ht, hs, hbounds, hchanged⟩
    cases hstops with
    | unreadable hread =>
      cases ht with
      | file hread' => cases hread.unique hread'
      | absent hnone => exact hnone _ hread
    | malformed hread hnone =>
      cases ht with
      | file hread' htable =>
        cases hread.unique hread'
        exact hnone ⟨t, s, htable, hs⟩
      | absent habsent => exact habsent _ hread
    | fileOutOfBounds ht' hs' hout =>
      cases ht.unique ht'
      exact hout (hs.unique hs' ▸ hbounds)
    | outOfBounds ht' hs' hout =>
      cases ht.unique ht'
      exact hout (hs.change.unique hs' ▸ hchanged)
  · intro hnone
    have hlayered : ∀ {t : Table} {s : Settings}, Holds world config t → s.Layered {} t →
        Stops world config flags := by
      intro t s ht hs
      by_cases hbounds : s.InBounds
      · exact .outOfBounds ht hs.change fun hchanged => hnone ⟨t, s, ht, hs, hbounds, hchanged⟩
      · exact .fileOutOfBounds ht hs hbounds
    by_cases hfile : ∃ result, ReadsFile world config result
    · obtain ⟨result, hread⟩ := hfile
      cases result with
      | error cause => exact .unreadable hread
      | ok text =>
        by_cases hsettings : ∃ t s, Toml.read? text = some t ∧ Settings.Layered {} t s
        · obtain ⟨t, s, ht, hs⟩ := hsettings
          exact hlayered (.file hread ht) hs
        · exact .malformed hread hsettings
    · exact hlayered (.absent (not_exists.mp hfile)) layered_standard

end Files

end WorkflowAudit.Config
