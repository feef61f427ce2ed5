import Mathlib.Data.List.Basic

set_option autoImplicit false

/-! # Texts made of lines

A text is read line by line: a reader takes from a line what it is looking for, or nothing. What it
finds in a text that was put together from pieces is what it finds in each of them, as long as every
piece ends where a line ends (`Finds`); and it finds nothing in pieces whose lines begin with
something else (`Lined`). -/

variable {α β γ : Type} [DecidableEq α]

namespace Lines

/-! ## Parts of a line -/

/-- What stands before the first `stop`. -/
def upTo (stop : α) (l : List α) : List α := l.takeWhile (· ≠ stop)

/-- What stands behind it. -/
def behind (stop : α) (l : List α) : List α := (l.dropWhile (· ≠ stop)).drop 1

theorem upTo_append {stop : α} {l : List α} (h : stop ∉ l) (rest : List α) :
    upTo stop (l ++ stop :: rest) = l := by
  have hkept : ∀ a ∈ l, decide (a ≠ stop) = true :=
    fun a ha => decide_eq_true (fun heq => h (heq ▸ ha))
  rw [upTo, List.takeWhile_append_of_pos hkept, List.takeWhile_cons_of_neg (by simp),
    List.append_nil]

theorem behind_append {stop : α} {l : List α} (h : stop ∉ l) (rest : List α) :
    behind stop (l ++ stop :: rest) = rest := by
  have hdropped : ∀ a ∈ l, decide (a ≠ stop) = true :=
    fun a ha => decide_eq_true (fun heq => h (heq ▸ ha))
  rw [behind, List.dropWhile_append_of_pos hdropped, List.dropWhile_cons_of_neg (by simp)]
  rfl

theorem dropPrefix_append (start rest : List α) :
    (start ++ rest).dropPrefix? start = some rest :=
  List.dropPrefix?_append_of_beq rest (beq_self_eq_true start)

/-- Neither is the beginning of the other. -/
def differs (start start' : List α) : Bool :=
  !start.isPrefixOf start' && !start'.isPrefixOf start

theorem dropPrefix_of_differs {start start' : List α} (h : differs start start' = true)
    (rest : List α) : (start' ++ rest).dropPrefix? start = none := by
  have hneither : ¬ start <+: start' ∧ ¬ start' <+: start := by
    simpa [differs, ← Bool.not_eq_true, List.isPrefixOf_iff_prefix] using h
  cases hdrop : (start' ++ rest).dropPrefix? start with
  | none => rfl
  | some more =>
      obtain ⟨same, heq, hsame⟩ := List.dropPrefix?_eq_some_iff.1 hdrop
      obtain rfl : same = start := eq_of_beq hsame
      rcases List.append_eq_append_iff.1 heq with ⟨as, rfl, -⟩ | ⟨bs, rfl, -⟩
      · exact absurd (List.prefix_append _ _) hneither.2
      · exact absurd (List.prefix_append _ _) hneither.1

/-- A line does not begin with `start` if `start` has something that comes neither before the first
    `stop` of the line nor is `stop`. -/
theorem dropPrefix_eq_none {start l : List α} {stop a : α} (hstop : stop ∉ start) (ha : a ∈ start)
    (hl : a ∉ l) (rest : List α) : (l ++ stop :: rest).dropPrefix? start = none := by
  cases hdrop : (l ++ stop :: rest).dropPrefix? start with
  | none => rfl
  | some more =>
      obtain ⟨same, heq, hsame⟩ := List.dropPrefix?_eq_some_iff.1 hdrop
      obtain rfl : same = start := eq_of_beq hsame
      refine absurd ?_ hl
      rcases List.append_eq_append_iff.1 heq with ⟨as, rfl, hrest⟩ | ⟨bs, rfl, -⟩
      · cases as with
        | nil => simpa using ha
        | cons x as =>
            have hx : stop = x := (List.cons.inj hrest).1
            exact absurd (List.mem_append_right l (hx ▸ List.mem_cons_self)) hstop
      · exact List.mem_append_left bs ha

/-! ## Reading a text -/

variable (nl : α)

/-- The lines, each with its end. -/
def unlines (lines : List (List α)) : List α := lines.flatMap (· ++ [nl])

/-- Reads lines that begin with `marker`, from the rest of the line. -/
def reader (marker : List α) (parse : List α → Option β) (line : List α) : Option β :=
  (line.dropPrefix? marker).bind parse

theorem reader_append (marker : List α) (parse : List α → Option β) (rest : List α) :
    reader marker parse (marker ++ rest) = parse rest := by
  rw [reader, dropPrefix_append, Option.bind_some]

/-- What `read` finds in the lines of a text. -/
def scan (read : List α → Option β) (text : List α) : List β := (text.splitOn nl).filterMap read

/-- Whatever follows it, `read` finds `found` in `text`. -/
def Finds (read : List α → Option β) (text : List α) (found : List β) : Prop :=
  ∀ rest, scan nl read (text ++ rest) = found ++ scan nl read rest

variable {nl} {read : List α → Option β}

theorem Finds.scan_eq {text : List α} {found : List β} (h : Finds nl read text found)
    (hnil : read [] = none) : scan nl read text = found := by
  have hend := h []
  have hnone : scan nl read ([] : List α) = [] := by
    rw [scan, List.splitOn_nil, List.filterMap_cons_none hnil, List.filterMap_nil]
  rwa [List.append_nil, hnone, List.append_nil] at hend

theorem Finds.nil : Finds nl read [] [] := fun _ => rfl

theorem Finds.append {text text' : List α} {found found' : List β} (h : Finds nl read text found)
    (h' : Finds nl read text' found') : Finds nl read (text ++ text') (found ++ found') := by
  intro rest
  rw [List.append_assoc, h, h', List.append_assoc]

theorem Finds.line (read : List α → Option β) {line : List α} (h : nl ∉ line) :
    Finds nl read (line ++ [nl]) (read line).toList := by
  intro rest
  rw [List.append_assoc, List.singleton_append, scan,
    List.splitOn_append_cons_self_of_not_mem h]
  cases hread : read line with
  | none => exact List.filterMap_cons_none hread
  | some b => exact List.filterMap_cons_some hread

/-- Pieces of one kind. -/
theorem Finds.flatMap {xs : List γ} {piece : γ → List α} {found : γ → β}
    (h : ∀ x ∈ xs, Finds nl read (piece x) [found x]) :
    Finds nl read (xs.flatMap piece) (xs.map found) := by
  induction xs with
  | nil => exact .nil
  | cons x xs ih =>
      have hrest := ih (fun y hy => h y (List.mem_cons_of_mem _ hy))
      exact (h x List.mem_cons_self).append hrest

/-- Pieces in which nothing is found. -/
theorem Finds.flatMap_nil {xs : List γ} {piece : γ → List α}
    (h : ∀ x ∈ xs, Finds nl read (piece x) []) : Finds nl read (xs.flatMap piece) [] := by
  induction xs with
  | nil => exact .nil
  | cons x xs ih =>
      have hrest := ih (fun y hy => h y (List.mem_cons_of_mem _ hy))
      exact (h x List.mem_cons_self).append hrest

/-- Pieces that begin with the end of a line, and a line that they continue. -/
theorem Finds.hanging {xs : List γ} {first last : List α} {piece : γ → List α}
    {found : γ → Option β} (hfirst : nl ∉ first) (hlast : nl ∉ last)
    (hpiece : ∀ x ∈ xs, nl ∉ piece x) (hsilent : ∀ l, read (first ++ l) = none)
    (hread : ∀ x ∈ xs, ∀ l, read (piece x ++ l) = found x) :
    Finds nl read (first ++ (xs.flatMap (fun x => nl :: piece x) ++ (last ++ [nl])))
      (xs.filterMap found) := by
  -- By induction on the pieces, whatever the line is that they continue.
  have hall : ∀ line : List α, nl ∉ line →
      Finds nl read (line ++ (xs.flatMap (fun x => nl :: piece x) ++ (last ++ [nl])))
        ((read (line ++ if xs = [] then last else [])).toList ++ xs.filterMap found) := by
    induction xs with
    | nil =>
        intro line hline
        have hwhole : nl ∉ line ++ last := by simp [hline, hlast]
        have hfinds := Finds.line read hwhole
        simpa using hfinds
    | cons x xs ih =>
        intro line hline
        have hrest := ih (fun y hy => hpiece y (List.mem_cons_of_mem _ hy))
          (fun y hy => hread y (List.mem_cons_of_mem _ hy)) (piece x)
          (hpiece x List.mem_cons_self)
        rw [hread x List.mem_cons_self] at hrest
        have hfinds := (Finds.line read hline).append hrest
        cases hx : found x <;> simpa [hx] using hfinds
  have hfinds := hall first hfirst
  rwa [hsilent] at hfinds

/-! ## Pieces in which nothing is found -/

variable (nl)

/-- The text consists of lines, which are empty or begin with one of `starts`. -/
def Lined (starts : List (List α)) (text : List α) : Prop :=
  ∃ lines, text = unlines nl lines ∧
    ∀ l ∈ lines, nl ∉ l ∧ (l = [] ∨ ∃ start ∈ starts, start <+: l)

/-- `Lined`, for a given text. -/
def isLined (starts : List (List α)) (text : List α) : Bool :=
  (text.splitOn nl).getLast? = some [] &&
    (text.splitOn nl).dropLast.all (fun l => l.isEmpty || starts.any (·.isPrefixOf l))

variable {nl} {starts : List (List α)}

theorem notMem_of_mem_splitOn {text line : List α} (h : line ∈ text.splitOn nl) : nl ∉ line := by
  induction text generalizing line with
  | nil =>
      obtain rfl : line = [] := by simpa using h
      simp
  | cons x text ih =>
      rw [List.splitOn_cons_eq_if_modifyHead] at h
      by_cases hx : x = nl
      · rw [if_pos (beq_iff_eq.2 hx)] at h
        rcases List.mem_cons.1 h with rfl | h
        · simp
        · exact ih h
      · rw [if_neg (fun heq => hx (beq_iff_eq.1 heq))] at h
        cases hsplit : text.splitOn nl with
        | nil => exact absurd hsplit (List.splitOn_ne_nil nl text)
        | cons first rest =>
            rw [hsplit, List.modifyHead_cons] at h
            rcases List.mem_cons.1 h with rfl | h
            · have hfirst := ih (hsplit ▸ List.mem_cons_self)
              simp [hfirst, Ne.symm hx]
            · exact ih (hsplit ▸ List.mem_cons_of_mem _ h)

omit [DecidableEq α] in
theorem intercalate_concat_nil (lines : List (List α)) :
    [nl].intercalate (lines ++ [[]]) = unlines nl lines := by
  induction lines with
  | nil => rfl
  | cons line lines ih =>
      cases lines with
      | nil => simp [unlines]
      | cons next lines =>
          rw [List.cons_append, List.cons_append, List.intercalate_cons_cons, ← List.cons_append, ih]
          simp [unlines]

theorem lined_of_isLined {text : List α} (h : isLined nl starts text = true) :
    Lined nl starts text := by
  obtain ⟨hlast, hall⟩ := Bool.and_eq_true_iff.1 h
  have hsplit : text.splitOn nl = (text.splitOn nl).dropLast ++ [[]] :=
    (List.dropLast_append_getLast? [] (of_decide_eq_true hlast)).symm
  refine ⟨(text.splitOn nl).dropLast, ?_, fun l hl => ⟨?_, ?_⟩⟩
  · rw [← intercalate_concat_nil, ← hsplit, List.intercalate_splitOn]
  · exact notMem_of_mem_splitOn (List.dropLast_subset _ hl)
  · have hstart := List.all_eq_true.1 hall l hl
    simpa [List.isPrefixOf_iff_prefix] using hstart

omit [DecidableEq α] in
theorem Lined.nil : Lined nl starts [] := ⟨[], rfl, by simp⟩

omit [DecidableEq α] in
theorem Lined.mono {text : List α} {starts' : List (List α)} (h : Lined nl starts text)
    (hsub : ∀ start ∈ starts, start ∈ starts') : Lined nl starts' text := by
  obtain ⟨lines, rfl, hlines⟩ := h
  refine ⟨lines, rfl, fun l hl => (hlines l hl).imp_right (Or.imp_right ?_)⟩
  rintro ⟨start, hmem, hprefix⟩
  exact ⟨start, hsub start hmem, hprefix⟩

omit [DecidableEq α] in
theorem Lined.append {text text' : List α} (h : Lined nl starts text)
    (h' : Lined nl starts text') : Lined nl starts (text ++ text') := by
  obtain ⟨lines, rfl, hlines⟩ := h
  obtain ⟨lines', rfl, hlines'⟩ := h'
  refine ⟨lines ++ lines', List.flatMap_append.symm, ?_⟩
  intro l hl
  exact (List.mem_append.1 hl).elim (hlines l) (hlines' l)

omit [DecidableEq α] in
theorem Lined.flatMap {xs : List γ} {piece : γ → List α}
    (h : ∀ x ∈ xs, Lined nl starts (piece x)) : Lined nl starts (xs.flatMap piece) := by
  induction xs with
  | nil => exact .nil
  | cons x xs ih =>
      exact (h x List.mem_cons_self).append (ih (fun y hy => h y (List.mem_cons_of_mem _ hy)))

/-- A line that is given but for its middle, and what follows it. -/
theorem Lined.line {start middle rest : List α} (hstart : ∃ given ∈ starts, given <+: start)
    (hbefore : nl ∉ start) (hmiddle : nl ∉ middle) (hrest : nl ∈ rest)
    (htail : isLined nl starts (behind nl rest) = true) :
    Lined nl starts (start ++ (middle ++ rest)) := by
  obtain ⟨before, after, rfl, hfirst⟩ := List.eq_append_cons_of_mem hrest
  rw [behind_append hfirst] at htail
  obtain ⟨lines, rfl, hlines⟩ := lined_of_isLined htail
  refine ⟨(start ++ (middle ++ before)) :: lines, by simp [unlines], ?_⟩
  intro l hl
  rcases List.mem_cons.1 hl with rfl | hl
  · obtain ⟨given, hmem, hgiven⟩ := hstart
    exact ⟨by simp [hbefore, hmiddle, hfirst],
      Or.inr ⟨given, hmem, hgiven.trans (List.prefix_append _ _)⟩⟩
  · exact hlines l hl

/-- `read` finds nothing in lines that are empty or begin with one of `starts`. -/
structure Ignores (read : List α → Option β) (starts : List (List α)) : Prop where
  empty : read [] = none
  line : ∀ start ∈ starts, ∀ l, read (start ++ l) = none

theorem ignores_reader {marker : List α} (hmarker : marker ≠ [])
    (hstarts : starts.all (differs marker) = true) (parse : List α → Option β) :
    Ignores (reader marker parse) starts where
  empty := by
    cases marker with
    | nil => exact absurd rfl hmarker
    | cons a marker => rfl
  line start hmem l := by
    rw [reader, dropPrefix_of_differs (List.all_eq_true.1 hstarts start hmem) l]
    rfl

theorem Lined.finds {text : List α} (h : Lined nl starts text) (hread : Ignores read starts) :
    Finds nl read text [] := by
  obtain ⟨lines, rfl, hlines⟩ := h
  induction lines with
  | nil => exact .nil
  | cons line lines ih =>
      obtain ⟨hline, hstart⟩ := hlines line List.mem_cons_self
      have hnone : read line = none := by
        rcases hstart with rfl | ⟨start, hmem, more, rfl⟩
        · exact hread.empty
        · exact hread.line start hmem more
      have hfirst := Finds.line read hline
      rw [hnone] at hfirst
      exact hfirst.append (ih (fun l hl => hlines l (List.mem_cons_of_mem _ hl)))

end Lines
