import Tirpc.Common.LogFiles
import Tirpc.Lib.Volumes

/-!
# The files of a log

The directory after a run is a function of the turns: the batches of a day fill its files one after the other.
-/

namespace Tirpc

open Lib LogFiles

variable {c : LogConfig} {s s' : LogFiles} {t : LogTurn} {turns : List LogTurn} {date : Bytes}

/-! ## Names -/

theorem digits_takeWhile (h : ∀ x ∈ date, isDigit x = true) (rest : Bytes) :
    (date ++ (text "_" ++ rest)).takeWhile isDigit = date := by
  have hbar : text "_" = [95] := text_singleton '_'
  rw [List.takeWhile_append_of_pos h, hbar, List.singleton_append, List.takeWhile_cons_of_neg (by decide),
    List.append_nil]

theorem fullFileName_eq (c : LogConfig) (date : Bytes) (no : Int) :
    c.fullFileName date no = (c.filePath ++ c.fileName ++ text "_") ++
      (date ++ (text "_" ++ (logTypeToString c.type ++ (text "_" ++ (decimal no ++ text ".log"))))) := by
  simp only [LogConfig.fullFileName, List.append_assoc]

/-- A name tells the day and the number. -/
theorem fullFileName_inj {date' : Bytes} {k k' : Nat} (h : ∀ x ∈ date, isDigit x = true)
    (h' : ∀ x ∈ date', isDigit x = true) (heq : c.fullFileName date k = c.fullFileName date' k') :
    date = date' ∧ k = k' := by
  rw [fullFileName_eq, fullFileName_eq] at heq
  have hrest := List.append_cancel_left heq
  have hdate : date = date' := by
    rw [← digits_takeWhile h, hrest, digits_takeWhile h']
  subst hdate
  have hno := List.append_cancel_right (List.append_cancel_left (List.append_cancel_left (List.append_cancel_left
    (List.append_cancel_left hrest))))
  refine ⟨rfl, ?_⟩
  rw [← numeral_decimal k, hno, numeral_decimal]

/-! ## One turn -/

def batchText (v : List (List Bytes)) : Bytes := v.flatten.flatten

theorem filter_flatten (tmp : List Bytes) : (tmp.filter fun i => i ≠ []).flatten = tmp.flatten := by
  induction tmp with
  | nil => rfl
  | cons i tmp ih =>
      by_cases hi : i = []
      · rw [List.filter_cons_of_neg (by simpa using hi), ih, hi, List.flatten_cons, List.nil_append]
      · rw [List.filter_cons_of_pos (by simpa using hi), List.flatten_cons, ih, List.flatten_cons]

theorem checkDate_new (hnew : s.date ≠ t.now.date ∨ s.fileHandler = none ∧ s.no = 0) :
    s.checkDate t.now = { s with no := 0, date := t.now.date, needReopen := true } := by
  rw [checkDate]
  by_cases hdate : s.date = t.now.date
  · obtain ⟨hclosed, hno⟩ := hnew.resolve_left (not_not.mpr hdate)
    rw [if_neg (not_not.mpr hdate), if_pos hclosed, ← hno, ← hdate]
  · rw [if_pos hdate]
    split <;> rfl

theorem checkDate_same (hdate : s.date = t.now.date) (hopen : s.fileHandler ≠ none) : s.checkDate t.now = s := by
  rw [checkDate, if_neg (not_not.mpr hdate), if_neg hopen]

/-- The day of the turn is a new one, and the first file of the day is not there yet. -/
theorem writeTurn_first (hmax : 0 ≤ c.maxSize) (hopens : ∀ file, t.opens file = true)
    (hnew : s.date ≠ t.now.date ∨ s.fileHandler = none ∧ s.no = 0)
    (hfile : s.files (c.fullFileName t.now.date 0) = none) :
    s.writeTurn c t = some
      { files := Function.update s.files (c.fullFileName t.now.date 0) (some t.tmp.flatten)
        fileHandler := some (c.fullFileName t.now.date 0)
        date := t.now.date
        console := s.echoed c t.tmp } := by
  have hsize : ¬((0 : Nat) : Int) > c.maxSize := by omega
  rw [writeTurn, checkDate_new hnew]
  simp only [reopen, if_true, fopen, hopens, hfile, Option.getD_none, Option.bind_some, rotate, ftell,
    Function.update_self, Option.getD_some, List.length_nil, if_neg hsize, append, List.nil_append,
    Function.update_idem, echoed, filter_flatten]

/-- The file that is open is over the size: the turn goes on to the next one, as long as that may be. -/
theorem writeTurn_over {s₁ : LogFiles} {k : Nat} (hopens : ∀ file, t.opens file = true)
    (hopened : (s.checkDate t.now).reopen c t.opens = s₁) (hno : s₁.no = k) (hk : k + 1 < 2147483648)
    (hopen : s₁.fileHandler = some (c.fullFileName s₁.date k))
    (hover : s₁.ftell (c.fullFileName s₁.date k) > c.maxSize) :
    s.writeTurn c t = some
      { files := Function.update s₁.files (c.fullFileName s₁.date (k + 1 : Nat))
          (some ((s₁.files (c.fullFileName s₁.date (k + 1 : Nat))).getD [] ++ t.tmp.flatten))
        no := (k + 1 : Nat)
        fileHandler := some (c.fullFileName s₁.date (k + 1 : Nat))
        date := s₁.date
        console := s₁.echoed c t.tmp } := by
  have hwrap : wrap32 ((k : Int) + 1) = (k + 1 : Nat) := by
    rw [wrap32_eq ⟨by omega, by omega⟩]
    rfl
  rw [writeTurn, hopened]
  simp only [hopen, Option.bind_some, rotate, if_pos hover, fopen, hopens, if_true, hno, hwrap, append,
    Function.update_self, Option.getD_some, Function.update_idem, echoed, filter_flatten]

theorem reopen_same (hdate : s.date = t.now.date) (hopen : s.fileHandler ≠ none) (hreopen : s.needReopen = false) :
    (s.checkDate t.now).reopen c t.opens = s := by
  rw [checkDate_same hdate hopen, reopen, if_neg (by rw [hreopen]; exact Bool.false_ne_true)]

/-- Some file of the day is open, and it is not over the size. -/
theorem writeTurn_within {file : Bytes} (hdate : s.date = t.now.date) (hopen : s.fileHandler = some file)
    (hreopen : s.needReopen = false) (hwithin : ¬s.ftell file > c.maxSize) :
    s.writeTurn c t = some
      { s with
        files := Function.update s.files file (some ((s.files file).getD [] ++ t.tmp.flatten))
        console := s.echoed c t.tmp } := by
  rw [writeTurn, reopen_same hdate (by rw [hopen]; exact Option.some_ne_none _) hreopen]
  simp only [hopen, Option.bind_some, rotate, if_neg hwithin, append, echoed, filter_flatten]

/-! ## Every run -/

/-- The batches of a day. -/
def batchesOf (turns : List LogTurn) (date : Bytes) : List (List Bytes) :=
  (turns.filter fun t => t.now.date = date).map LogTurn.tmp

/-- The batches of a day, file by file. -/
def volumesOf (c : LogConfig) (turns : List LogTurn) (date : Bytes) : List (List (List Bytes)) :=
  volumes (fun v => (batchText v).length) c.maxSize.toNat (batchesOf turns date)

/-- What is in the directory of the log and where its consumer is, behind the turns of `done`. -/
structure Filled (c : LogConfig) (before : Bytes → Option Bytes) (done : List LogTurn) (s : LogFiles) : Prop where
  files : ∀ (date : LogDate) (k : Nat),
    s.files (c.fullFileName date.date k) = (volumesOf c done date.date)[k]?.map batchText
  others : ∀ file, (∀ (date : LogDate) (k : Nat), file ≠ c.fullFileName date.date k) → s.files file = before file
  closed : s.needReopen = false
  place : done = [] ∧ s.fileHandler = none ∧ s.no = 0 ∨
    ∃ u ∈ done, ∃ vs v, s.date = u.now.date ∧ volumesOf c done u.now.date = vs ++ [v] ∧ s.no = vs.length ∧
      s.fileHandler = some (c.fullFileName u.now.date vs.length) ∧ ∀ t ∈ done, t.now.date ≤ u.now.date

theorem batchesOf_concat (done : List LogTurn) (t : LogTurn) (date : Bytes) :
    batchesOf (done ++ [t]) date = if t.now.date = date then batchesOf done date ++ [t.tmp] else batchesOf done date := by
  rw [batchesOf, List.filter_append, List.map_append]
  by_cases h : t.now.date = date
  · rw [if_pos h, List.filter_singleton, decide_eq_true h]
    rfl
  · rw [if_neg h, List.filter_singleton, decide_eq_false h]
    exact List.append_nil _

theorem volumesOf_concat (done : List LogTurn) (t : LogTurn) :
    volumesOf c (done ++ [t]) t.now.date = putItem (fun v => (batchText v).length) c.maxSize.toNat
      (volumesOf c done t.now.date) t.tmp := by
  rw [volumesOf, batchesOf_concat, if_pos rfl, volumes_concat]
  rfl

theorem volumesOf_other {done : List LogTurn} (h : t.now.date ≠ date) :
    volumesOf c (done ++ [t]) date = volumesOf c done date := by
  rw [volumesOf, batchesOf_concat, if_neg h]
  rfl

theorem volumesOf_length (c : LogConfig) (done : List LogTurn) (date : Bytes) :
    (volumesOf c done date).length ≤ done.length := by
  refine (volumes_length_le _).trans ?_
  rw [batchesOf, List.length_map]
  exact List.length_filter_le _ _

theorem batchText_singleton (tmp : List Bytes) : batchText [tmp] = tmp.flatten := by
  rw [batchText, List.flatten_singleton]

theorem batchText_flatten (vs : List (List (List Bytes))) : (vs.map batchText).flatten = vs.flatten.flatten.flatten := by
  induction vs with
  | nil => rfl
  | cons v vs ih =>
      rw [List.map_cons, List.flatten_cons, ih, List.flatten_cons, List.flatten_append, List.flatten_append]
      rfl

theorem batchText_concat (v : List (List Bytes)) (tmp : List Bytes) :
    batchText (v ++ [tmp]) = batchText v ++ tmp.flatten := by
  rw [batchText, List.flatten_append, List.flatten_append, List.flatten_singleton]
  rfl

namespace Filled

variable {before : Bytes → Option Bytes} {done : List LogTurn}

/-- One file is written, and it is file `k` of the day of the turn. -/
theorem update (h : Filled c before done s) {k : Nat} {content : Bytes}
    (hother : ∀ j, j ≠ k → (volumesOf c (done ++ [t]) t.now.date)[j]? = (volumesOf c done t.now.date)[j]?)
    (hhere : (volumesOf c (done ++ [t]) t.now.date)[k]?.map batchText = some content) (date : LogDate) (j : Nat) :
    Function.update s.files (c.fullFileName t.now.date k) (some content) (c.fullFileName date.date j) =
      (volumesOf c (done ++ [t]) date.date)[j]?.map batchText := by
  by_cases hdate : t.now.date = date.date
  · rw [← hdate]
    by_cases hj : j = k
    · rw [hj, Function.update_self, hhere]
    · have hne : c.fullFileName t.now.date j ≠ c.fullFileName t.now.date k := fun heq =>
        hj (fullFileName_inj t.now.digits t.now.digits heq).2
      rw [Function.update_of_ne hne, hother j hj]
      exact h.files t.now j
  · have hne : c.fullFileName date.date j ≠ c.fullFileName t.now.date k := fun heq =>
      hdate (fullFileName_inj date.digits t.now.digits heq).1.symm
    rw [Function.update_of_ne hne, volumesOf_other hdate]
    exact h.files date j

theorem update_others (h : Filled c before done s) (k : Nat) (content : Bytes) {file : Bytes}
    (hfile : ∀ (date : LogDate) (k : Nat), file ≠ c.fullFileName date.date k) :
    Function.update s.files (c.fullFileName t.now.date k) (some content) file = before file := by
  rw [Function.update_of_ne (hfile t.now k)]
  exact h.others file hfile

/-- The first turn of a day. -/
theorem step_first (h : Filled c before done s) (hmax : 0 ≤ c.maxSize) (hopens : ∀ file, t.opens file = true)
    (hlater : ∀ u ∈ done, u.now.date ≤ t.now.date) (hnone : volumesOf c done t.now.date = [])
    (hnew : s.date ≠ t.now.date ∨ s.fileHandler = none ∧ s.no = 0) :
    ∃ s', s.writeTurn c t = some s' ∧ Filled c before (done ++ [t]) s' := by
  have hfile : s.files (c.fullFileName t.now.date 0) = none := by
    have hfiles := h.files t.now 0
    rw [hnone] at hfiles
    exact hfiles
  have hvolumes : volumesOf c (done ++ [t]) t.now.date = [[t.tmp]] := by
    rw [volumesOf_concat, hnone]
    rfl
  refine ⟨_, writeTurn_first hmax hopens hnew hfile, ?_, ?_, rfl, .inr ⟨t, ?_, [], [t.tmp], rfl, hvolumes, rfl, rfl, ?_⟩⟩
  · refine h.update (k := 0) (fun j hj => ?_) ?_
    · rw [hvolumes, hnone, List.getElem?_cons, if_neg hj, List.getElem?_nil, List.getElem?_nil]
    · rw [hvolumes, ← batchText_singleton]
      rfl
  · exact fun file hfile => h.update_others 0 _ hfile
  · exact List.mem_append_right _ (List.mem_singleton_self t)
  · intro u hu
    rcases List.mem_append.mp hu with hu | hu
    · exact hlater u hu
    · rw [List.mem_singleton.mp hu]
      exact List.le_refl _

/-- Another turn of a day. -/
theorem step_next (h : Filled c before done s) (hmax : 0 ≤ c.maxSize) (hopens : ∀ file, t.opens file = true)
    (hlater : ∀ u ∈ done, u.now.date ≤ t.now.date) (hfew : done.length + 1 < 2147483648)
    {vs : List (List (List Bytes))} {v : List (List Bytes)} (hdate : s.date = t.now.date)
    (hvs : volumesOf c done t.now.date = vs ++ [v]) (hno : s.no = vs.length)
    (hopen : s.fileHandler = some (c.fullFileName t.now.date vs.length)) :
    ∃ s', s.writeTurn c t = some s' ∧ Filled c before (done ++ [t]) s' := by
  have hcontent : s.files (c.fullFileName t.now.date vs.length) = some (batchText v) := by
    rw [h.files t.now vs.length, hvs, List.getElem?_concat_length]
    rfl
  have hnext : s.files (c.fullFileName t.now.date (vs.length + 1 : Nat)) = none := by
    rw [h.files t.now (vs.length + 1), hvs, List.getElem?_eq_none (by simp)]
    rfl
  have hlast : ∀ u ∈ done ++ [t], u.now.date ≤ t.now.date := by
    intro u hu
    rcases List.mem_append.mp hu with hu | hu
    · exact hlater u hu
    · rw [List.mem_singleton.mp hu]
      exact List.le_refl _
  have hmem : t ∈ done ++ [t] := List.mem_append_right _ (List.mem_singleton_self t)
  have hk : vs.length + 1 < 2147483648 := by
    have hlen := volumesOf_length c done t.now.date
    rw [hvs, List.length_append, List.length_singleton] at hlen
    omega
  have hsome : s.fileHandler ≠ none := by rw [hopen]; exact Option.some_ne_none _
  rw [← hdate] at hcontent hnext hopen
  by_cases hover : s.ftell (c.fullFileName s.date vs.length) > c.maxSize
  · have hturn := writeTurn_over hopens (reopen_same hdate hsome h.closed) hno hk hopen hover
    have hvolumes : volumesOf c (done ++ [t]) t.now.date = vs ++ [v] ++ [[t.tmp]] := by
      rw [ftell, hcontent, Option.getD_some] at hover
      rw [volumesOf_concat, hvs, putItem_concat, if_pos (by omega)]
    have hlength : vs.length + 1 = (vs ++ [v]).length := by rw [List.length_append, List.length_singleton]
    rw [hnext, Option.getD_none, List.nil_append, hdate, hlength] at hturn
    refine ⟨_, hturn, ?_, ?_, rfl, .inr ⟨t, hmem, vs ++ [v], [t.tmp], rfl, hvolumes, rfl, rfl, hlast⟩⟩
    · refine h.update (fun j hj => ?_) ?_
      · rw [hvolumes, hvs, getElem?_concat_of_ne hj]
      · rw [hvolumes, List.getElem?_concat_length, ← batchText_singleton]
        rfl
    · exact fun file hfile => h.update_others _ _ hfile
  · have hturn := writeTurn_within hdate hopen h.closed hover
    have hvolumes : volumesOf c (done ++ [t]) t.now.date = vs ++ [v ++ [t.tmp]] := by
      rw [ftell, hcontent, Option.getD_some] at hover
      rw [volumesOf_concat, hvs, putItem_concat, if_neg (by omega)]
    rw [hdate] at hcontent hopen
    rw [hdate, hcontent, Option.getD_some] at hturn
    refine ⟨_, hturn, ?_, ?_, h.closed, .inr ⟨t, hmem, vs, v ++ [t.tmp], rfl, hvolumes, hno, hopen, hlast⟩⟩
    · refine h.update (fun j hj => ?_) ?_
      · rw [hvolumes, hvs, getElem?_concat_of_ne hj, getElem?_concat_of_ne hj]
      · rw [hvolumes, List.getElem?_concat_length, ← batchText_concat]
        rfl
    · exact fun file hfile => h.update_others _ _ hfile

theorem step (h : Filled c before done s) (hmax : 0 ≤ c.maxSize) (hopens : ∀ file, t.opens file = true)
    (hlater : ∀ u ∈ done, u.now.date ≤ t.now.date) (hfew : done.length + 1 < 2147483648) :
    ∃ s', s.writeTurn c t = some s' ∧ Filled c before (done ++ [t]) s' := by
  have hempty : (∀ u ∈ done, u.now.date ≠ t.now.date) → volumesOf c done t.now.date = [] := by
    intro hne
    rw [volumesOf, batchesOf, List.filter_eq_nil_iff.mpr fun u hu => by simpa using hne u hu]
    rfl
  rcases h.place with ⟨hdone, hclosed, hno⟩ | ⟨u, hu, vs, v, hdate, hvs, hno, hopen, hlatest⟩
  · exact h.step_first hmax hopens hlater (hempty fun u hu => absurd (hdone ▸ hu) List.not_mem_nil) (.inr ⟨hclosed, hno⟩)
  · by_cases hsame : u.now.date = t.now.date
    · rw [hsame] at hdate hvs hopen
      exact h.step_next hmax hopens hlater hfew hdate hvs hno hopen
    · refine h.step_first hmax hopens hlater (hempty fun u' hu' heq => ?_) (.inl fun heq => hsame (hdate.symm.trans heq))
      exact hsame (List.le_antisymm (hlater u hu) (heq ▸ hlatest u' hu'))

theorem run (h : Filled c before done s) (hmax : 0 ≤ c.maxSize) (hopens : ∀ t ∈ turns, ∀ file, t.opens file = true)
    (hsorted : (done ++ turns).Pairwise fun t u => t.now.date ≤ u.now.date)
    (hfew : (done ++ turns).length < 2147483648) :
    ∃ s', s.run c turns = some s' ∧ Filled c before (done ++ turns) s' := by
  induction turns generalizing s done with
  | nil => exact ⟨s, rfl, by rw [List.append_nil]; exact h⟩
  | cons t turns ih =>
      have hlater : ∀ u ∈ done, u.now.date ≤ t.now.date := fun u hu =>
        (List.pairwise_append.mp hsorted).2.2 u hu t List.mem_cons_self
      have hlen : done.length + 1 < 2147483648 := by
        rw [List.length_append, List.length_cons] at hfew
        omega
      obtain ⟨s₁, hturn, h₁⟩ := h.step hmax (hopens t List.mem_cons_self) hlater hlen
      obtain ⟨s', hrun, h'⟩ := ih h₁ (fun u hu => hopens u (List.mem_cons_of_mem t hu))
        (by rw [List.append_assoc]; exact hsorted) (by rw [List.append_assoc]; exact hfew)
      refine ⟨s', ?_, ?_⟩
      · rw [LogFiles.run, List.foldlM_cons, hturn]
        exact hrun
      · rw [List.append_assoc] at h'
        exact h'

end Filled

/-- The consumer has just been started, and no file of its log is there. -/
structure LogStart (c : LogConfig) (s : LogFiles) : Prop where
  empty : ∀ (date : LogDate) (k : Nat), s.files (c.fullFileName date.date k) = none
  no : s.no = 0
  needReopen : s.needReopen = false
  fileHandler : s.fileHandler = none

theorem LogStart.filled (h : LogStart c s) : Filled c s.files [] s :=
  ⟨fun date k => h.empty date k, fun _ _ => rfl, h.needReopen, .inl ⟨rfl, h.fileHandler, h.no⟩⟩

/-- The files of one day, in their order, for the batches of that day: one behind the other they are the records; each
but the last is over the size, which it was not before its last batch; and when every batch alone is over the size, each
batch has a file of its own. -/
structure FilesOfDay (maxSize : Int) (batches : List (List Bytes)) (contents : List Bytes) : Prop where
  records : contents.flatten = batches.flatten.flatten
  full : ∀ x ∈ contents.dropLast, maxSize < x.length
  within : ∀ x ∈ contents, ∃ front, ∃ tmp ∈ batches, x = front ++ tmp.flatten ∧ (front.length : Int) ≤ maxSize
  single : (∀ tmp ∈ batches, maxSize < tmp.flatten.length) → contents = batches.map List.flatten

theorem filesOfDay_volumes (hmax : 0 ≤ c.maxSize) (turns : List LogTurn) (date : Bytes) :
    FilesOfDay c.maxSize (batchesOf turns date) ((volumesOf c turns date).map batchText) := by
  have hflatten : (volumesOf c turns date).flatten = batchesOf turns date := volumes_flatten _
  refine ⟨?_, fun x hx => ?_, fun x hx => ?_, fun hall => ?_⟩
  · rw [← hflatten, batchText_flatten]
  · rw [← List.map_dropLast] at hx
    obtain ⟨v, hv, rfl⟩ := List.mem_map.mp hx
    have hfull := volumes_full _ v hv
    omega
  · obtain ⟨v, hv, rfl⟩ := List.mem_map.mp hx
    obtain ⟨hne, hle⟩ := volumes_within (Nat.zero_le _) _ v hv
    obtain ⟨front, tmp, rfl⟩ : ∃ front tmp, v = front ++ [tmp] :=
      ⟨v.dropLast, v.getLast hne, (List.dropLast_append_getLast hne).symm⟩
    rw [List.dropLast_concat] at hle
    refine ⟨batchText front, tmp, ?_, batchText_concat front tmp, by omega⟩
    rw [← hflatten]
    exact List.mem_flatten_of_mem hv (List.mem_append_right _ (List.mem_singleton_self tmp))
  · rw [volumesOf, volumes_singletons fun tmp htmp => ?_, List.map_map]
    · exact List.map_congr_left fun tmp _ => batchText_singleton tmp
    · have hover := hall tmp htmp
      rw [batchText_singleton]
      omega

/-- When the clock does not go back to an earlier day: whatever the batches are, the run comes to its end; the files of
each day are numbered without a gap and hold the batches of the day; and no other file is touched. -/
theorem log_files_of_day (hmax : 0 ≤ c.maxSize) (hstart : LogStart c s)
    (hopens : ∀ t ∈ turns, ∀ file, t.opens file = true)
    (hsorted : turns.Pairwise fun t u => t.now.date ≤ u.now.date) (hfew : turns.length < 2147483648) :
    ∃ s', s.run c turns = some s' ∧
      (∀ date : LogDate, ∃ contents, FilesOfDay c.maxSize (batchesOf turns date.date) contents ∧
        ∀ k : Nat, s'.files (c.fullFileName date.date k) = contents[k]?) ∧
      ∀ file, (∀ (date : LogDate) (k : Nat), file ≠ c.fullFileName date.date k) → s'.files file = s.files file := by
  obtain ⟨s', hrun, h⟩ := hstart.filled.run hmax hopens hsorted hfew
  rw [List.nil_append] at h
  refine ⟨s', hrun, fun date => ⟨_, filesOfDay_volumes hmax turns date.date, fun k => ?_⟩, h.others⟩
  rw [h.files date k, List.getElem?_map]

def firstDay : LogDate := ⟨text "20240101", by decide +kernel⟩

def nextDay : LogDate := ⟨text "20240102", by decide +kernel⟩

def smallLog : LogConfig := { filePath := text "./", fileName := text "log", maxSize := 5, type := .RPC_LOG }

/-- The second batch still goes to the file of the first one. -/
def fourTurns : List LogTurn := [
  { tmp := [text "a\n"], now := firstDay }, { tmp := [text "bcd\n", []], now := firstDay },
  { tmp := [text "e\n"], now := firstDay }, { tmp := [text "f\n"], now := nextDay }]

theorem log_files_of_day_four : ∃ s', LogFiles.run smallLog { files := fun _ => none } fourTurns = some s' ∧
    ∃ contents, FilesOfDay 5 (batchesOf fourTurns firstDay.date) contents ∧
      ∀ k : Nat, s'.files (smallLog.fullFileName firstDay.date k) = contents[k]? := by
  have hopens : ∀ t ∈ fourTurns, ∀ file, t.opens file = true := by simp [fourTurns]
  have hstart : LogStart smallLog { files := fun _ => none } := ⟨fun _ _ => rfl, rfl, rfl, rfl⟩
  obtain ⟨s', hrun, hdays, -⟩ := log_files_of_day (by decide) hstart hopens (by decide) (by decide)
  exact ⟨s', hrun, hdays firstDay⟩

/-! ## A second start on the same day -/

/-- Behind the turns of `done`, each of them has gone to the next of the files that were there before. -/
structure Scattered (c : LogConfig) (before : Bytes → Option Bytes) (date : LogDate) (done : List LogTurn)
    (s : LogFiles) : Prop where
  first : s.files (c.fullFileName date.date (0 : Nat)) = before (c.fullFileName date.date (0 : Nat))
  files : ∀ k : Nat, s.files (c.fullFileName date.date (k + 1 : Nat)) =
    match done[k]? with
    | none => before (c.fullFileName date.date (k + 1 : Nat))
    | some t => some ((before (c.fullFileName date.date (k + 1 : Nat))).getD [] ++ t.tmp.flatten)
  no : s.no = done.length
  closed : s.needReopen = false
  place : done = [] ∧ s.fileHandler = none ∨
    s.date = date.date ∧ s.fileHandler = some (c.fullFileName date.date done.length)

namespace Scattered

variable {before : Bytes → Option Bytes} {done : List LogTurn} {now : LogDate}

/-- The file that the turn finds open is the last one that has been written, or the first one of the day. -/
theorem opened (h : Scattered c before now done s) (hopens : ∀ file, t.opens file = true) (hnow : t.now = now)
    (hfirst : ∃ content, before (c.fullFileName now.date 0) = some content) :
    (s.checkDate t.now).reopen c t.opens =
      { s with
        no := done.length, needReopen := false, date := now.date
        fileHandler := some (c.fullFileName now.date done.length) } := by
  rcases h.place with ⟨rfl, hclosed⟩ | ⟨hdate, hopen⟩
  · obtain ⟨content, hcontent⟩ := hfirst
    have hno : s.no = 0 := h.no
    rw [checkDate_new (.inr ⟨hclosed, hno⟩)]
    have hfile : s.files (c.fullFileName now.date 0) = some content := h.first.trans hcontent
    have hsame : Function.update s.files (c.fullFileName now.date 0) (some content) = s.files := by
      rw [← hfile, Function.update_eq_self]
    simp only [reopen, if_true, fopen, hopens, hnow, hfile, Option.getD_some, hsame]
    rfl
  · rw [reopen_same (hnow ▸ hdate) (by rw [hopen]; exact Option.some_ne_none _) h.closed]
    cases s
    cases h.no
    cases h.closed
    cases hdate
    cases hopen
    rfl

theorem step (h : Scattered c before now done s) (hopens : ∀ file, t.opens file = true) (hnow : t.now = now)
    (hfew : done.length + 1 < 2147483648)
    (hover : ∃ content, before (c.fullFileName now.date done.length) = some content ∧ c.maxSize < content.length)
    (hfirst : ∃ content, before (c.fullFileName now.date 0) = some content) :
    ∃ s', s.writeTurn c t = some s' ∧ Scattered c before now (done ++ [t]) s' := by
  obtain ⟨content, hcontent, hlong⟩ := hover
  have hftell : s.ftell (c.fullFileName now.date done.length) > c.maxSize := by
    rw [ftell]
    rcases List.eq_nil_or_concat done with rfl | ⟨init, u, rfl⟩
    · have hfile : s.files (c.fullFileName now.date ([] : List LogTurn).length) = some content := h.first.trans hcontent
      rw [hfile, Option.getD_some]
      exact hlong
    · rw [List.concat_eq_append] at *
      have hlength : (init ++ [u]).length = init.length + 1 := by rw [List.length_append, List.length_singleton]
      have hfile := h.files init.length
      rw [hlength] at hcontent
      rw [List.getElem?_concat_length, hcontent] at hfile
      rw [hlength, hfile]
      simp only [Option.getD_some, List.length_append]
      omega
  have hturn := writeTurn_over hopens (h.opened hopens hnow hfirst) rfl hfew rfl hftell
  have hlength : done.length + 1 = (done ++ [t]).length := by rw [List.length_append, List.length_singleton]
  have hnext := h.files done.length
  rw [List.getElem?_eq_none (Nat.le_refl _)] at hnext
  dsimp only at hturn hnext
  rw [hnext] at hturn
  refine ⟨_, hturn, ?_, fun k => ?_, ?_, rfl, .inr ⟨rfl, ?_⟩⟩
  · have hne : c.fullFileName now.date (0 : Nat) ≠ c.fullFileName now.date (done.length + 1 : Nat) := fun heq =>
      absurd (fullFileName_inj now.digits now.digits heq).2 (by omega)
    dsimp only
    rw [Function.update_of_ne hne]
    exact h.first
  · by_cases hk : k = done.length
    · rw [hk, List.getElem?_concat_length]
      exact Function.update_self _ _ _
    · have hne : c.fullFileName now.date (k + 1 : Nat) ≠ c.fullFileName now.date (done.length + 1 : Nat) := fun heq =>
        hk (Nat.succ.inj (fullFileName_inj now.digits now.digits heq).2)
      dsimp only
      rw [getElem?_concat_of_ne hk, Function.update_of_ne hne]
      exact h.files k
  · rw [hlength]
  · rw [hlength]

theorem run (h : Scattered c before now done s) (hopens : ∀ t ∈ turns, ∀ file, t.opens file = true)
    (hday : ∀ t ∈ turns, t.now = now) (hfew : (done ++ turns).length < 2147483648)
    (hfull : ∀ k : Nat, k < (done ++ turns).length →
      ∃ content, before (c.fullFileName now.date k) = some content ∧ c.maxSize < content.length) :
    ∃ s', s.run c turns = some s' ∧ Scattered c before now (done ++ turns) s' := by
  induction turns generalizing s done with
  | nil => exact ⟨s, rfl, by rw [List.append_nil]; exact h⟩
  | cons t turns ih =>
      have hlen : done.length + 1 ≤ (done ++ t :: turns).length := by
        rw [List.length_append, List.length_cons]
        omega
      have hfirst : ∃ content, before (c.fullFileName now.date 0) = some content := by
        obtain ⟨content, hcontent, -⟩ := hfull 0 (by omega)
        exact ⟨content, hcontent⟩
      obtain ⟨s₁, hturn, h₁⟩ := h.step (hopens t List.mem_cons_self) (hday t List.mem_cons_self) (by omega)
        (hfull done.length (by omega)) hfirst
      have happend : done ++ [t] ++ turns = done ++ t :: turns := by rw [List.append_assoc]; rfl
      obtain ⟨s', hrun, h'⟩ := ih h₁ (fun u hu => hopens u (List.mem_cons_of_mem t hu))
        (fun u hu => hday u (List.mem_cons_of_mem t hu)) (by rw [happend]; exact hfew) (by rw [happend]; exact hfull)
      refine ⟨s', ?_, ?_⟩
      · rw [LogFiles.run, List.foldlM_cons, hturn]
        exact hrun
      · rw [happend] at h'
        exact h'

end Scattered

/-- A start on a day that already has as many full files as there are batches: the batches do not go to the end of the
log, but each of them to the end of another one of these files, from the second on. -/
theorem restart_scatters {date : LogDate} (hno : s.no = 0) (hreopen : s.needReopen = false)
    (hclosed : s.fileHandler = none) (hopens : ∀ t ∈ turns, ∀ file, t.opens file = true)
    (hday : ∀ t ∈ turns, t.now = date) (hfew : turns.length < 2147483648)
    (hfull : ∀ k : Nat, k < turns.length →
      ∃ content, s.files (c.fullFileName date.date k) = some content ∧ c.maxSize < content.length) :
    ∃ s', s.run c turns = some s' ∧ s'.files (c.fullFileName date.date 0) = s.files (c.fullFileName date.date 0) ∧
      ∀ (k : Nat) (hk : k < turns.length), s'.files (c.fullFileName date.date (k + 1 : Nat)) =
        some ((s.files (c.fullFileName date.date (k + 1 : Nat))).getD [] ++ turns[k].tmp.flatten) := by
  have hstart : Scattered c s.files date [] s :=
    ⟨rfl, fun k => rfl, hno, hreopen, .inl ⟨rfl, hclosed⟩⟩
  obtain ⟨s', hrun, h⟩ := hstart.run hopens hday hfew hfull
  rw [List.nil_append] at h
  refine ⟨s', hrun, h.first, fun k hk => ?_⟩
  rw [h.files k, List.getElem?_eq_getElem hk]

/-- Two files of the day are full. -/
def fullDay : LogFiles where
  files file :=
    if file = smallLog.fullFileName firstDay.date (0 : Nat) then some (text "before\n")
    else if file = smallLog.fullFileName firstDay.date (1 : Nat) then some (text "later\n")
    else none

def twoTurns : List LogTurn := [{ tmp := [text "x\n"], now := firstDay }, { tmp := [text "y\n"], now := firstDay }]

theorem restart_scatters_two : ∃ s', fullDay.run smallLog twoTurns = some s' ∧
    s'.files (smallLog.fullFileName firstDay.date (1 : Nat)) = some (text "later\n" ++ text "x\n") ∧
    s'.files (smallLog.fullFileName firstDay.date (2 : Nat)) = some (text "y\n") := by
  have hopens : ∀ t ∈ twoTurns, ∀ file, t.opens file = true := by simp [twoTurns]
  have hne : ∀ k k' : Nat, k ≠ k' →
      smallLog.fullFileName firstDay.date k ≠ smallLog.fullFileName firstDay.date k' := fun k k' hk heq =>
    hk (fullFileName_inj firstDay.digits firstDay.digits heq).2
  have hfirst : fullDay.files (smallLog.fullFileName firstDay.date (0 : Nat)) = some (text "before\n") := by
    simp only [fullDay, if_true]
  have hsecond : fullDay.files (smallLog.fullFileName firstDay.date (1 : Nat)) = some (text "later\n") := by
    simp only [fullDay, if_neg (hne 1 0 (by decide)), if_true]
  have hthird : fullDay.files (smallLog.fullFileName firstDay.date (2 : Nat)) = none := by
    simp only [fullDay, if_neg (hne 2 0 (by decide)), if_neg (hne 2 1 (by decide))]
  have hfull : ∀ k : Nat, k < twoTurns.length → ∃ content,
      fullDay.files (smallLog.fullFileName firstDay.date k) = some content ∧ smallLog.maxSize < content.length := by
    intro k hk
    match k, hk with
    | 0, _ => exact ⟨text "before\n", hfirst, by decide⟩
    | 1, _ => exact ⟨text "later\n", hsecond, by decide⟩
  obtain ⟨s', hrun, -, hfiles⟩ := restart_scatters rfl rfl rfl hopens (by decide) (by decide) hfull
  refine ⟨s', hrun, (hfiles 0 (by decide)).trans ?_, (hfiles 1 (by decide)).trans ?_⟩
  · rw [hsecond]
    rfl
  · rw [hthird]
    decide

end Tirpc
