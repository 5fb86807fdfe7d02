import VeriMat.RelationExtraction

/-! # The numeric gate

The tokens of a quote are read from left to right. An automaton that reads one character at a
time is idle where an unsigned token can begin; it is not idle after a hyphen, also where the
hyphen stands between the ends of a range, and it is idle again after every second group of a
chain such as `1.2.3`. -/
namespace NumericGate

open PyText RelationExtraction

variable {D : ℕ → Bool}

/-! ## Occurrences -/

section Occurrences
variable (D)

/-- A text of digits. -/
def Digits (text : PyStr) : Prop := text ≠ [] ∧ ∀ c ∈ text, D c = true

/-- An unsigned decimal number: digits with an optional fraction. -/
inductive IsNumber : PyStr → Prop where
  | whole {digits : PyStr} (hdigits : Digits D digits) : IsNumber digits
  | fraction {digits places : PyStr} (hdigits : Digits D digits) (hplaces : Digits D places) :
      IsNumber (digits ++ 46 :: places)

def StartsDigit (text : PyStr) : Prop := ∃ d rest, text = d :: rest ∧ D d = true

def StartsPointDigit (text : PyStr) : Prop := ∃ rest, text = 46 :: rest ∧ StartsDigit D rest

def EndsDigit (text : PyStr) : Prop := ∃ init d, text = init ++ [d] ∧ D d = true

def EndsDigitPoint (text : PyStr) : Prop := ∃ init, text = init ++ [46] ∧ EndsDigit D init

def EndsHyphen (text : PyStr) : Prop := ∃ init, text = init ++ [45]

/-- The hyphen directly follows a digit. -/
def EndsRangeHyphen (text : PyStr) : Prop := ∃ init, text = init ++ [45] ∧ EndsDigit D init

/-- What stands between these texts is a complete unsigned number there. -/
structure Complete (before after : PyStr) : Prop where
  digit : ¬ EndsDigit D before
  point : ¬ EndsDigitPoint D before
  sign : EndsHyphen before → EndsRangeHyphen D before
  next : ¬ StartsDigit D after
  places : ¬ StartsPointDigit D after

/-- The number occurs in the quote as a complete unsigned number. -/
def Occurs (n quote : PyStr) : Prop :=
  ∃ before after, quote = before ++ n ++ after ∧ Complete D before after

/-- It occurs so without a hyphen in front. -/
def Plain (n quote : PyStr) : Prop :=
  ∃ before after, quote = before ++ n ++ after ∧ Complete D before after ∧ ¬ EndsHyphen before

/-- It occurs so right after the hyphen of a range. -/
def Ranged (n quote : PyStr) : Prop :=
  ∃ before after, quote = before ++ n ++ after ∧ Complete D before after ∧ EndsHyphen before

/-- Groups of digits, each with a point behind it. -/
def dotted (groups : List PyStr) : PyStr := groups.flatMap (· ++ [46])

/-- The number ends before this text. -/
def Stops (n after : PyStr) : Prop :=
  ¬ StartsDigit D after ∧ ((∀ c ∈ n, D c = true) → ¬ StartsPointDigit D after)

/-- These groups stand in front of a token and start a chain of groups. -/
structure Leading (before : PyStr) (groups : List PyStr) : Prop where
  digits : ∀ g ∈ groups, Digits D g
  even : Even groups.length
  digit : ¬ EndsDigit D before
  point : ¬ EndsDigitPoint D before
  sign : groups = [] → ¬ EndsHyphen before

/-- It is cut out of a longer chain of groups such as `1.2.3`, after an even number of groups. -/
def Chained (n quote : PyStr) : Prop :=
  ∃ before groups after, quote = before ++ dotted groups ++ n ++ after ∧
    Leading D before groups ∧ Stops D n after ∧ (groups ≠ [] ∨ StartsPointDigit D after)

end Occurrences

theorem occurs_iff {n quote : PyStr} : Occurs D n quote ↔ Plain D n quote ∨ Ranged D n quote := by
  constructor
  · rintro ⟨before, after, hquote, hcomplete⟩
    by_cases h : EndsHyphen before
    · exact .inr ⟨before, after, hquote, hcomplete, h⟩
    · exact .inl ⟨before, after, hquote, hcomplete, h⟩
  · rintro (⟨before, after, hquote, hcomplete, _⟩ | ⟨before, after, hquote, hcomplete, _⟩)
    · exact ⟨before, after, hquote, hcomplete⟩
    · exact ⟨before, after, hquote, hcomplete⟩

theorem endsDigit_concat {init : PyStr} {c : ℕ} : EndsDigit D (init ++ [c]) ↔ D c = true := by
  constructor
  · rintro ⟨init', d, heq, hd⟩
    have hlast : c = d := by simpa using (List.append_inj' heq rfl).2
    exact hlast ▸ hd
  · exact fun h => ⟨init, c, rfl, h⟩

theorem endsHyphen_concat {init : PyStr} {c : ℕ} : EndsHyphen (init ++ [c]) ↔ c = 45 := by
  constructor
  · rintro ⟨init', heq⟩
    simpa using (List.append_inj' heq rfl).2
  · rintro rfl
    exact ⟨init, rfl⟩

theorem endsDigitPoint_concat {init : PyStr} {c : ℕ} :
    EndsDigitPoint D (init ++ [c]) ↔ c = 46 ∧ EndsDigit D init := by
  constructor
  · rintro ⟨init', heq, h⟩
    obtain ⟨rfl, hlast⟩ := List.append_inj' heq rfl
    exact ⟨by simpa using hlast, h⟩
  · rintro ⟨rfl, h⟩
    exact ⟨init, rfl, h⟩

/-! ## The automaton -/

inductive Mode where
  | idle
  | hyphen
  | whole
  | point
  | places
  deriving DecidableEq

/-- The mode a digit leads to. -/
def Mode.digit : Mode → Mode
  | idle | hyphen | whole => whole
  | point | places => places

variable (D) in
def Mode.step (m : Mode) (c : ℕ) : Mode :=
  if D c then m.digit
  else if c = 45 then hyphen
  else if c = 46 ∧ m = whole then point
  else idle

variable (D) in
/-- The mode after a text that is read from a mode. -/
def modeFrom (m : Mode) (text : PyStr) : Mode := text.foldl (Mode.step D) m

theorem modeFrom_append (m : Mode) (xs ys : PyStr) :
    modeFrom D m (xs ++ ys) = modeFrom D (modeFrom D m xs) ys := List.foldl_append

@[simp] theorem modeFrom_nil (m : Mode) : modeFrom D m [] = m := rfl

theorem modeFrom_cons (m : Mode) (c : ℕ) (text : PyStr) :
    modeFrom D m (c :: text) = modeFrom D (m.step D c) text := rfl

theorem step_digit {c : ℕ} (h : D c = true) (m : Mode) : m.step D c = m.digit := by
  rw [Mode.step, if_pos h]

theorem modeFrom_digits {text : PyStr} (h : Digits D text) (m : Mode) :
    modeFrom D m text = m.digit := by
  obtain ⟨hne, hall⟩ := h
  induction text generalizing m with
  | nil => exact absurd rfl hne
  | cons c text ih =>
    obtain ⟨hc, htext⟩ := List.forall_mem_cons.mp hall
    rw [modeFrom_cons, step_digit hc]
    by_cases hnil : text = []
    · rw [hnil, modeFrom_nil]
    · rw [ih _ hnil htext]
      cases m <;> rfl

theorem step_hyphen (h45 : D 45 = false) (m : Mode) : m.step D 45 = .hyphen := by
  simp [Mode.step, h45]

theorem step_point (h46 : D 46 = false) (m : Mode) :
    m.step D 46 = if m = .whole then .point else .idle := by
  simp [Mode.step, h46]

/-! ## The groups in front -/

/-- What the automaton makes of a text that ends no group. -/
theorem modeFrom_before {before : PyStr} (hdigit : ¬ EndsDigit D before)
    (hpoint : ¬ EndsDigitPoint D before) :
    (modeFrom D .idle before = .idle ∧ ¬ EndsHyphen before) ∨
      (modeFrom D .idle before = .hyphen ∧ EndsHyphen before) := by
  have hmode : ∀ text : PyStr, ¬ EndsDigit D text →
      modeFrom D .idle text ≠ .whole ∧ modeFrom D .idle text ≠ .places := by
    intro text htext
    rcases List.eq_nil_or_concat text with rfl | ⟨init, c, rfl⟩
    · exact ⟨nofun, nofun⟩
    · rw [List.concat_eq_append, endsDigit_concat] at htext
      rw [List.concat_eq_append, modeFrom_append, modeFrom_cons, modeFrom_nil, Mode.step,
        if_neg htext]
      split_ifs <;> exact ⟨nofun, nofun⟩
  rcases List.eq_nil_or_concat before with rfl | ⟨init, c, rfl⟩
  · exact .inl ⟨rfl, by rintro ⟨init, h⟩; simp at h⟩
  · rw [List.concat_eq_append] at *
    rw [endsDigit_concat] at hdigit
    rw [endsDigitPoint_concat, not_and] at hpoint
    rw [endsHyphen_concat, modeFrom_append, modeFrom_cons, modeFrom_nil, Mode.step, if_neg hdigit]
    by_cases hc : c = 45
    · rw [if_pos hc]
      exact .inr ⟨rfl, hc⟩
    · rw [if_neg hc, if_neg]
      · exact .inl ⟨rfl, hc⟩
      · rintro ⟨hc', hwhole⟩
        exact (hmode init (hpoint hc')).1 hwhole

theorem dotted_concat (groups : List PyStr) (g : PyStr) :
    dotted (groups ++ [g]) = dotted groups ++ (g ++ [46]) := by
  rw [dotted, List.flatMap_append, List.flatMap_singleton]
  rfl

/-- Two groups bring the automaton back to where it was, one brings it to the point. -/
theorem modeFrom_dotted (h46 : D 46 = false) {groups : List PyStr} (h : ∀ g ∈ groups, Digits D g)
    (m : Mode) (hm : m = .idle ∨ m = .hyphen) : modeFrom D m (dotted groups) =
      if groups = [] then m else if Even groups.length then .idle else .point := by
  have hgroup : ∀ g, Digits D g → ∀ m, modeFrom D m (g ++ [46]) =
      if m.digit = .whole then .point else .idle := by
    intro g hg m
    rw [modeFrom_append, modeFrom_digits hg, modeFrom_cons, modeFrom_nil, step_point h46]
  induction groups using List.reverseRecOn with
  | nil => rfl
  | append_singleton groups g ih =>
    have hne : groups ++ [g] ≠ [] := by simp
    have heven : Even (groups ++ [g]).length ↔ ¬ Even groups.length := by
      rw [List.length_append, List.length_singleton, Nat.even_add_one]
    rw [dotted_concat, modeFrom_append, ih fun g' hg' => h g' (List.mem_append_left _ hg'),
      hgroup g (h g (by simp)), if_neg hne]
    by_cases hnil : groups = []
    · have hodd : ¬ Even (groups ++ [g]).length := heven.not.mpr (by simp [hnil])
      rw [if_pos hnil, if_neg hodd]
      rcases hm with rfl | rfl <;> rfl
    · rw [if_neg hnil]
      by_cases hold : Even groups.length
      · rw [if_pos hold, if_neg (heven.not.mpr (not_not.mpr hold))]
        rfl
      · rw [if_neg hold, if_pos (heven.mpr hold)]
        rfl

theorem exists_run (text : PyStr) :
    ∃ init g, text = init ++ g ∧ (∀ c ∈ g, D c = true) ∧ ¬ EndsDigit D init := by
  induction text using List.reverseRecOn with
  | nil => exact ⟨[], [], rfl, nofun, by rintro ⟨init, d, h, _⟩; simp at h⟩
  | append_singleton text c ih =>
    by_cases hc : D c = true
    · obtain ⟨init, g, rfl, hg, hinit⟩ := ih
      refine ⟨init, g ++ [c], List.append_assoc _ _ _, fun c' hc' => ?_, hinit⟩
      rcases List.mem_append.mp hc' with hc' | hc'
      · exact hg c' hc'
      · rw [List.mem_singleton.mp hc']
        exact hc
    · exact ⟨text ++ [c], [], (List.append_nil _).symm, nofun, fun h => hc (endsDigit_concat.mp h)⟩

/-- A text that ends no digit ends with as many groups as it can. -/
theorem exists_groups (text : PyStr) (h : ¬ EndsDigit D text) :
    ∃ before groups, text = before ++ dotted groups ∧ (∀ g ∈ groups, Digits D g) ∧
      ¬ EndsDigit D before ∧ ¬ EndsDigitPoint D before := by
  induction hlength : text.length using Nat.strong_induction_on generalizing text with
  | _ length ih =>
    by_cases hpoint : EndsDigitPoint D text
    · obtain ⟨init, rfl, hinit⟩ := hpoint
      obtain ⟨init', g, rfl, hg, hinit'⟩ := exists_run (D := D) init
      have hne : g ≠ [] := by
        rintro rfl
        exact hinit' (List.append_nil init' ▸ hinit)
      have hshorter : init'.length < length := by
        rw [← hlength, List.length_append, List.length_append]
        simp only [List.length_singleton]
        omega
      obtain ⟨before, groups, heq, hgroups, hbefore⟩ := ih _ hshorter init' hinit' rfl
      refine ⟨before, groups ++ [g], ?_, fun g' hg' => ?_, hbefore⟩
      · rw [heq, dotted_concat]
        simp only [List.append_assoc]
      · rcases List.mem_append.mp hg' with hg' | hg'
        · exact hgroups g' hg'
        · rw [List.mem_singleton.mp hg']
          exact ⟨hne, hg⟩
    · exact ⟨text, [], (List.append_nil _).symm, nofun, h, hpoint⟩

/-- The automaton is idle after an even number of groups that no hyphen leads. -/
theorem modeFrom_eq_idle (h46 : D 46 = false) (text : PyStr) :
    modeFrom D .idle text = .idle ↔
      ∃ before groups, text = before ++ dotted groups ∧ Leading D before groups := by
  have hends : modeFrom D .idle text = .idle → ¬ EndsDigit D text := by
    rintro hidle ⟨init, d, rfl, hd⟩
    rw [modeFrom_append, modeFrom_cons, modeFrom_nil, step_digit hd] at hidle
    cases hm : modeFrom D .idle init <;> rw [hm] at hidle <;> cases hidle
  constructor
  · intro hidle
    obtain ⟨before, groups, rfl, hgroups, hdigit, hpoint⟩ := exists_groups text (hends hidle)
    refine ⟨before, groups, rfl, hgroups, ?_, hdigit, hpoint, ?_⟩
    · by_contra hodd
      have hne : groups ≠ [] := by
        rintro rfl
        exact hodd (by simp)
      have hmode := (modeFrom_before hdigit hpoint).imp And.left And.left
      rw [modeFrom_append, modeFrom_dotted h46 hgroups _ hmode, if_neg hne, if_neg hodd] at hidle
      cases hidle
    · rintro rfl hhyphen
      rcases modeFrom_before hdigit hpoint with ⟨_, hnone⟩ | ⟨hmode, _⟩
      · exact hnone hhyphen
      · rw [dotted, List.flatMap_nil, List.append_nil, hmode] at hidle
        cases hidle
  · rintro ⟨before, groups, rfl, hleading⟩
    have hbefore := modeFrom_before hleading.digit hleading.point
    rw [modeFrom_append, modeFrom_dotted h46 hleading.digits _ (hbefore.imp And.left And.left)]
    by_cases hnil : groups = []
    · rw [if_pos hnil]
      rcases hbefore with ⟨hmode, _⟩ | ⟨_, hhyphen⟩
      · exact hmode
      · exact absurd hhyphen (hleading.sign hnil)
    · rw [if_neg hnil, if_pos hleading.even]

/-! ## Tokens -/

theorem takeWhile_of_stop {after : PyStr} (h : ¬ StartsDigit D after) :
    after.takeWhile D = [] ∧ after.dropWhile D = after := by
  cases after with
  | nil => exact ⟨rfl, rfl⟩
  | cons c after =>
    have hc : D c = false := Bool.eq_false_of_not_eq_true fun hd => h ⟨c, after, rfl, hd⟩
    exact ⟨List.takeWhile_cons_of_neg (by simp [hc]), List.dropWhile_cons_of_neg (by simp [hc])⟩

theorem span_digits {digits after : PyStr} (hdigits : ∀ c ∈ digits, D c = true)
    (h : ¬ StartsDigit D after) :
    (digits ++ after).takeWhile D = digits ∧ (digits ++ after).dropWhile D = after := by
  obtain ⟨htake, hdrop⟩ := takeWhile_of_stop h
  rw [List.takeWhile_append_of_pos hdigits, List.dropWhile_append_of_pos hdigits, htake, hdrop,
    List.append_nil]
  exact ⟨rfl, rfl⟩

theorem IsNumber.startsDigit {n : PyStr} (h : IsNumber D n) (after : PyStr) :
    StartsDigit D (n ++ after) := by
  have hdigits : ∀ {digits : PyStr}, Digits D digits → ∀ rest, StartsDigit D (digits ++ rest) := by
    rintro digits ⟨hne, hall⟩ rest
    obtain ⟨d, digits', rfl⟩ := List.exists_cons_of_ne_nil hne
    exact ⟨d, digits' ++ rest, rfl, hall d List.mem_cons_self⟩
  cases h with
  | whole h => exact hdigits h after
  | fraction h _ =>
    rw [List.append_assoc]
    exact hdigits h _

variable (D) in
/-- A number at the front of a text, and the rest. -/
def unsignedAt (text : PyStr) : Option (PyStr × PyStr) :=
  let whole := text.takeWhile D
  if whole = [] then none
  else
    match text.dropWhile D with
    | 46 :: rest =>
      let fraction := rest.takeWhile D
      if fraction = [] then some (whole, 46 :: rest)
      else some (whole ++ 46 :: fraction, rest.dropWhile D)
    | rest => some (whole, rest)

theorem numberAt_hyphen (text : PyStr) : numberAt D (45 :: text) =
    (unsignedAt D text).map fun p => (45 :: p.1, p.2) := by
  rw [numberAt, unsignedAt]
  by_cases hnone : text.takeWhile D = []
  · simp only [hnone, if_true, Option.map_none]
  · simp only [hnone, if_false]
    split
    case h_1 rest heq =>
      by_cases hf : rest.takeWhile D = []
      · simp only [heq, hf, if_true, Option.map_some, List.singleton_append]
      · simp only [heq, hf, if_false, Option.map_some, List.nil_append, List.cons_append]
    case h_2 => simp

theorem numberAt_of_ne {c : ℕ} (h : c ≠ 45) (text : PyStr) :
    numberAt D (c :: text) = unsignedAt D (c :: text) := by
  rw [numberAt, unsignedAt]
  · rfl
  · exact fun rest heq => h (List.cons.inj heq).1

theorem unsignedAt_append (h46 : D 46 = false) {n after : PyStr} (hn : IsNumber D n)
    (hstops : Stops D n after) : unsignedAt D (n ++ after) = some (n, after) := by
  cases hn with
  | whole hdigits =>
    obtain ⟨htake, hdrop⟩ := span_digits hdigits.2 hstops.1
    rw [unsignedAt, htake, hdrop, if_neg hdigits.1]
    split
    case h_1 rest =>
      have hrest : ¬ StartsDigit D rest := fun h => hstops.2 hdigits.2 ⟨rest, rfl, h⟩
      rw [(takeWhile_of_stop hrest).1]
      rfl
    case h_2 => rfl
  | @fraction digits places hdigits hplaces =>
    have hpoint : ¬ StartsDigit D (46 :: (places ++ after)) := by
      rintro ⟨d, rest, heq, hd⟩
      rw [← (List.cons.inj heq).1, h46] at hd
      cases hd
    obtain ⟨htake, hdrop⟩ := span_digits hdigits.2 hpoint
    obtain ⟨htake', hdrop'⟩ := span_digits hplaces.2 hstops.1
    rw [unsignedAt, List.append_assoc, List.cons_append, htake, hdrop]
    simp only [if_neg hdigits.1, htake', hdrop', if_neg hplaces.1]

theorem digits_takeWhile {text : PyStr} (h : text.takeWhile D ≠ []) :
    Digits D (text.takeWhile D) :=
  ⟨h, fun _ hc => List.mem_takeWhile_imp hc⟩

theorem not_startsDigit_dropWhile (text : PyStr) : ¬ StartsDigit D (text.dropWhile D) := by
  rintro ⟨d, rest, heq, hd⟩
  have hhead : (text.dropWhile D).head? = some d := by rw [heq]; rfl
  have hnot := List.head?_dropWhile_not D text
  rw [hhead] at hnot
  simp [hd] at hnot

theorem unsignedAt_eq_some (h46 : D 46 = false) {text n after : PyStr}
    (h : unsignedAt D text = some (n, after)) :
    text = n ++ after ∧ IsNumber D n ∧ Stops D n after := by
  have hsplit := (List.takeWhile_append_dropWhile (p := D) (l := text)).symm
  have hstop := not_startsDigit_dropWhile (D := D) text
  rw [unsignedAt] at h
  dsimp only at h
  split_ifs at h with hnone
  have hdigits := digits_takeWhile hnone
  split at h
  case h_1 rest hrest =>
    rw [hrest] at hsplit hstop
    split_ifs at h with hfraction
    · cases h
      refine ⟨hsplit, .whole hdigits, hstop, fun _ => ?_⟩
      rintro ⟨rest', heq, d, rest'', rfl, hd⟩
      cases heq
      rw [List.takeWhile_cons_of_pos hd] at hfraction
      cases hfraction
    · cases h
      refine ⟨?_, .fraction hdigits (digits_takeWhile hfraction),
        not_startsDigit_dropWhile rest, fun hall => ?_⟩
      · rw [List.append_assoc, List.cons_append, List.takeWhile_append_dropWhile]
        exact hsplit
      · have hpoint := hall 46 (List.mem_append_right _ List.mem_cons_self)
        rw [h46] at hpoint
        cases hpoint
  case h_2 rest hother =>
    cases h
    refine ⟨hsplit, .whole hdigits, hstop, fun _ => ?_⟩
    rintro ⟨rest', heq, _⟩
    exact hother rest' heq

theorem unsignedAt_eq_none {text : PyStr} (h : unsignedAt D text = none) :
    ¬ StartsDigit D text := by
  rintro ⟨d, rest, rfl, hd⟩
  rw [unsignedAt] at h
  dsimp only at h
  rw [List.takeWhile_cons_of_pos hd, if_neg (List.cons_ne_nil _ _)] at h
  split at h
  · split_ifs at h
  · cases h

/-! ## The scan -/

/-- The automaton never idles within a number. -/
theorem modeFrom_within (h46 : D 46 = false) {n : PyStr} (hn : IsNumber D n) {m : Mode}
    (hm : m = .idle ∨ m = .hyphen) {front back : PyStr} (hsplit : n = front ++ back)
    (hfront : front ≠ []) : modeFrom D m front ≠ .idle := by
  have hdigit : ∀ {digits : PyStr}, Digits D digits → modeFrom D m digits = .whole := by
    intro digits h
    rw [modeFrom_digits h]
    rcases hm with rfl | rfl <;> rfl
  cases hn with
  | whole h =>
    rw [hdigit ⟨hfront, fun c hc => h.2 c (hsplit ▸ List.mem_append_left _ hc)⟩]
    exact nofun
  | fraction h hplaces =>
    rcases List.append_eq_append_iff.mp hsplit with ⟨inner, rfl, hinner⟩ | ⟨rest, rfl, _⟩
    · -- the front holds the digits
      rw [modeFrom_append, hdigit h]
      cases inner with
      | nil => exact nofun
      | cons c inner =>
        obtain ⟨rfl, hplaces'⟩ := List.cons.inj hinner
        rw [modeFrom_cons, step_point h46, if_pos rfl]
        by_cases hnil : inner = []
        · rw [hnil]
          exact nofun
        · rw [modeFrom_digits ⟨hnil, fun c hc =>
            hplaces.2 c (hplaces' ▸ List.mem_append_left _ hc)⟩]
          exact nofun
    · rw [hdigit ⟨hfront, fun c hc => h.2 c (List.mem_append_left _ hc)⟩]
      exact nofun

variable (D) in
/-- A scan from here reads what it would read from the idle mode. -/
def Fresh (m : Mode) (text : PyStr) : Prop :=
  m = .idle ∨ ¬ StartsDigit D text ∧ (m = .whole → ¬ StartsPointDigit D text)

theorem fresh_after (h46 : D 46 = false) {n after : PyStr} (hn : IsNumber D n)
    (hstops : Stops D n after) {m : Mode} (hm : m = .idle ∨ m = .hyphen) :
    Fresh D (modeFrom D m n) after := by
  refine .inr ⟨hstops.1, fun hwhole => ?_⟩
  cases hn with
  | whole h => exact hstops.2 h.2
  | fraction h hplaces =>
    rw [modeFrom_append, modeFrom_digits h, modeFrom_cons, step_point h46,
      modeFrom_digits hplaces] at hwhole
    rcases hm with rfl | rfl <;> cases hwhole

variable (D) in
/-- The number begins in this text where the automaton is idle. -/
def BeginsIdle (m : Mode) (n text : PyStr) : Prop :=
  ∃ skipped after, text = skipped ++ n ++ after ∧ modeFrom D m skipped = .idle ∧ Stops D n after

/-- Behind a text in which no number can begin. -/
theorem beginsIdle_append {m : Mode} {n front text : PyStr}
    (hnone : ∀ skipped back, front = skipped ++ back → back ≠ [] → ∀ after,
      back ++ text = n ++ after → modeFrom D m skipped = .idle → Stops D n after → False) :
    BeginsIdle D m n (front ++ text) ↔ BeginsIdle D (modeFrom D m front) n text := by
  constructor
  · rintro ⟨skipped, after, hsplit, hidle, hstops⟩
    rw [List.append_assoc] at hsplit
    rcases List.append_eq_append_iff.mp hsplit with ⟨inner, rfl, htext⟩ | ⟨back, hfront, hrest⟩
    · rw [modeFrom_append] at hidle
      exact ⟨inner, after, by rw [htext, List.append_assoc], hidle, hstops⟩
    · by_cases hback : back = []
      · subst hback
        rw [List.append_nil] at hfront
        subst hfront
        exact ⟨[], after, hrest.symm, hidle, hstops⟩
      · exact (hnone skipped back hfront hback after hrest.symm hidle hstops).elim
  · rintro ⟨inner, after, rfl, hidle, hstops⟩
    exact ⟨front ++ inner, after, by simp only [List.append_assoc], by
      rw [modeFrom_append]
      exact hidle, hstops⟩

theorem beginsIdle_number (h46 : D 46 = false) {n k after : PyStr} (hn : IsNumber D n)
    (hk : IsNumber D k) (hstops : Stops D k after) :
    BeginsIdle D .idle n (k ++ after) ↔ n = k ∨ BeginsIdle D (modeFrom D .idle k) n after := by
  by_cases hsame : n = k
  · subst hsame
    exact ⟨fun _ => .inl rfl, fun _ => ⟨[], after, rfl, rfl, hstops⟩⟩
  · rw [beginsIdle_append fun skipped back hsplit hback after' htext hidle hstops' => ?_]
    · exact ⟨.inr, fun h => h.resolve_left hsame⟩
    · by_cases hskipped : skipped = []
      · subst hskipped
        rw [List.nil_append] at hsplit
        subst hsplit
        have hread := unsignedAt_append h46 hk hstops
        rw [htext, unsignedAt_append h46 hn hstops'] at hread
        exact hsame (Prod.mk.inj (Option.some.inj hread)).1
      · exact modeFrom_within h46 hk (.inl rfl) hsplit hskipped hidle

/-- A number with a sign is none without. -/
theorem beginsIdle_signed (h45 : D 45 = false) (h46 : D 46 = false) {m : Mode} {n k after : PyStr}
    (hn : IsNumber D n) (hk : IsNumber D k) :
    BeginsIdle D m n (45 :: k ++ after) ↔ BeginsIdle D (modeFrom D .hyphen k) n after := by
  have hmode : modeFrom D m (45 :: k) = modeFrom D .hyphen k := by
    rw [modeFrom_cons, step_hyphen h45]
  rw [beginsIdle_append, hmode]
  intro skipped back hsplit hback after' htext hidle _
  cases skipped with
  | nil =>
    rw [List.nil_append] at hsplit
    subst hsplit
    obtain ⟨d, rest, heq, hd⟩ := hn.startsDigit after'
    rw [heq] at htext
    rw [← (List.cons.inj htext).1, h45] at hd
    cases hd
  | cons c skipped =>
    obtain ⟨rfl, hrest⟩ := List.cons.inj hsplit
    rw [modeFrom_cons, step_hyphen h45] at hidle
    by_cases hnil : skipped = []
    · rw [hnil] at hidle
      cases hidle
    · exact modeFrom_within h46 hk (.inr rfl) hrest hnil hidle

/-- No number begins at a character that is no digit. -/
theorem beginsIdle_cons {m : Mode} {n : PyStr} {c : ℕ} (hn : IsNumber D n) (hc : D c = false)
    (text : PyStr) : BeginsIdle D m n (c :: text) ↔ BeginsIdle D (m.step D c) n text := by
  have happend : (∀ skipped back, [c] = skipped ++ back → back ≠ [] → ∀ after,
      back ++ text = n ++ after → modeFrom D m skipped = .idle → Stops D n after → False) →
        (BeginsIdle D m n ([c] ++ text) ↔ BeginsIdle D (modeFrom D m [c]) n text) :=
    beginsIdle_append
  refine happend fun skipped back hsplit hback after htext _ _ => ?_
  obtain ⟨d, rest, heq, hd⟩ := hn.startsDigit after
  have hskipped : skipped = [] := by
    cases skipped with
    | nil => rfl
    | cons c' skipped =>
      have hnil := (List.append_eq_nil_iff.mp (List.cons.inj hsplit).2.symm).2
      exact absurd hnil hback
  subst hskipped
  rw [List.nil_append] at hsplit
  rw [← hsplit, heq] at htext
  rw [← (List.cons.inj htext).1, hc] at hd
  cases hd

theorem not_beginsIdle_nil {m : Mode} {n : PyStr} (hn : IsNumber D n) :
    ¬ BeginsIdle D m n [] := by
  rintro ⟨skipped, after, hsplit, _⟩
  obtain ⟨d, rest, heq, _⟩ := hn.startsDigit after
  rw [List.append_assoc, heq] at hsplit
  simp at hsplit

/-- The unsigned tokens are the numbers that begin where the automaton is idle. -/
theorem mem_scanNumbers (h45 : D 45 = false) (h46 : D 46 = false) {n : PyStr}
    (hn : IsNumber D n) : ∀ (fuel : ℕ) (m : Mode) (text : PyStr), text.length ≤ fuel →
      Fresh D m text → (n ∈ scanNumbers D fuel text ↔ BeginsIdle D m n text) := by
  intro fuel
  induction fuel with
  | zero =>
    intro m text hlength _
    rw [List.length_eq_zero_iff.mp (Nat.le_zero.mp hlength)]
    exact ⟨nofun, fun h => absurd h (not_beginsIdle_nil hn)⟩
  | succ fuel ih =>
    intro m text hlength hfresh
    cases text with
    | nil => exact ⟨nofun, fun h => absurd h (not_beginsIdle_nil hn)⟩
    | cons c text =>
      rw [List.length_cons] at hlength
      rw [scanNumbers]
      by_cases hc : c = 45
      · subst hc
        rw [numberAt_hyphen]
        cases hread : unsignedAt D text with
        | none =>
          rw [beginsIdle_cons hn h45, step_hyphen h45]
          exact ih _ text (by omega) (.inr ⟨unsignedAt_eq_none hread, nofun⟩)
        | some p =>
          obtain ⟨k, after⟩ := p
          obtain ⟨rfl, hk, hstops⟩ := unsignedAt_eq_some h46 hread
          have hne : n ≠ 45 :: k := by
            rintro rfl
            obtain ⟨d, rest, heq, hd⟩ := hn.startsDigit []
            rw [← (List.cons.inj heq).1, h45] at hd
            cases hd
          rw [Option.map_some, List.mem_cons, or_iff_right hne, ← List.cons_append,
            beginsIdle_signed h45 h46 hn hk]
          refine ih _ after ?_ (fresh_after h46 hk hstops (.inr rfl))
          rw [List.length_append] at hlength
          omega
      · rw [numberAt_of_ne hc]
        cases hread : unsignedAt D (c :: text) with
        | none =>
          have hdigit : D c = false := Bool.eq_false_of_not_eq_true fun hd =>
            unsignedAt_eq_none hread ⟨c, text, rfl, hd⟩
          rw [beginsIdle_cons hn hdigit]
          refine ih _ text (by omega) ?_
          rw [Mode.step, if_neg (by simp [hdigit]), if_neg hc]
          by_cases hpoint : c = 46 ∧ m = .whole
          · obtain ⟨rfl, rfl⟩ := hpoint
            rw [if_pos ⟨rfl, rfl⟩]
            refine .inr ⟨fun hstart => ?_, nofun⟩
            rcases hfresh with hidle | ⟨_, hwhole⟩
            · cases hidle
            · exact hwhole rfl ⟨text, rfl, hstart⟩
          · rw [if_neg hpoint]
            exact .inl rfl
        | some p =>
          obtain ⟨k, after⟩ := p
          obtain ⟨heq, hk, hstops⟩ := unsignedAt_eq_some h46 hread
          have hidle : m = .idle := by
            rcases hfresh with hidle | ⟨hstart, _⟩
            · exact hidle
            · exact absurd (heq ▸ hk.startsDigit after) hstart
          subst hidle
          dsimp only
          rw [heq, List.mem_cons, beginsIdle_number h46 hn hk hstops]
          refine or_congr_right (ih _ after ?_ (fresh_after h46 hk hstops (.inl rfl)))
          have hk1 : 1 ≤ k.length := List.length_pos_iff.mpr (by
            rintro rfl
            obtain ⟨d, rest, hnil, _⟩ := hk.startsDigit []
            cases hnil)
          have htotal := congrArg List.length heq
          rw [List.length_cons, List.length_append] at htotal
          omega

/-! ## The gate -/

theorem stops_nil (n : PyStr) : Stops D n [] := by
  constructor
  · rintro ⟨d, rest, h, _⟩
    cases h
  · rintro _ ⟨rest, h, _⟩
    cases h

theorem numbersIn_self (h45 : D 45 = false) (h46 : D 46 = false) {n : PyStr}
    (hn : IsNumber D n) : numbersIn D n = [n] := by
  have hread := unsignedAt_append h46 hn (stops_nil n)
  rw [List.append_nil] at hread
  obtain ⟨c, text, heq, hc⟩ := hn.startsDigit []
  rw [List.append_nil] at heq
  have hne : c ≠ 45 := by
    rintro rfl
    rw [h45] at hc
    cases hc
  rw [numbersIn, heq, List.length_cons, scanNumbers, numberAt_of_ne hne, ← heq, hread]
  cases text.length <;> rfl

/-- The gate finds the number where the automaton is idle. -/
theorem backed_iff (h45 : D 45 = false) (h46 : D 46 = false) {n quote : PyStr}
    (hn : IsNumber D n) :
    numbersAreBacked D n quote = true ↔ BeginsIdle D .idle n quote := by
  rw [numbersAreBacked, numbersIn_self h45 h46 hn]
  simp only [List.all_cons, List.all_nil, Bool.and_true, Bool.and_eq_true, List.contains_iff_mem]
  rw [numbersIn, mem_scanNumbers h45 h46 hn _ _ quote le_rfl (.inl rfl)]
  exact and_iff_right (by simp)

theorem beginsIdle_iff (h46 : D 46 = false) {n quote : PyStr} :
    BeginsIdle D .idle n quote ↔ Plain D n quote ∨ Chained D n quote := by
  constructor
  · rintro ⟨skipped, after, hquote, hidle, hstops⟩
    obtain ⟨before, groups, rfl, hleading⟩ := (modeFrom_eq_idle h46 skipped).mp hidle
    by_cases hchain : groups ≠ [] ∨ StartsPointDigit D after
    · exact .inr ⟨before, groups, after, hquote, hleading, hstops, hchain⟩
    · obtain ⟨hnil, hplaces⟩ := not_or.mp hchain
      rw [not_not] at hnil
      subst hnil
      rw [dotted, List.flatMap_nil, List.append_nil] at hquote
      exact .inl ⟨before, after, hquote, ⟨hleading.digit, hleading.point,
        fun h => absurd h (hleading.sign rfl), hstops.1, hplaces⟩, hleading.sign rfl⟩
  · rintro (⟨before, after, hquote, hcomplete, hsign⟩ |
      ⟨before, groups, after, hquote, hleading, hstops, _⟩)
    · refine ⟨before, after, hquote, (modeFrom_eq_idle h46 before).mpr ⟨before, [], ?_, ?_⟩,
        hcomplete.next, fun _ => hcomplete.places⟩
      · exact (List.append_nil before).symm
      · exact ⟨nofun, by simp, hcomplete.digit, hcomplete.point, fun _ => hsign⟩
    · exact ⟨before ++ dotted groups, after, hquote,
        (modeFrom_eq_idle h46 _).mpr ⟨before, groups, rfl, hleading⟩, hstops⟩

/-- The gate tells whether the number occurs, unless it occurs after the hyphen of a range only,
or is cut out of a chain of groups only. -/
theorem numeric_gate_iff (h45 : D 45 = false) (h46 : D 46 = false) {n : PyStr}
    (hn : IsNumber D n) (quote : PyStr) :
    (numbersAreBacked D n quote = true ↔ Occurs D n quote) ↔
      (Plain D n quote ∨ (Chained D n quote ↔ Ranged D n quote)) := by
  rw [backed_iff h45 h46 hn, beginsIdle_iff h46, occurs_iff]
  tauto

/-! ## Ranges and chains -/

/-- What `\d` matches, without the digits of other scripts. -/
def asciiDigit (c : ℕ) : Bool := 48 ≤ c && c ≤ 57

theorem isNumber_range : IsNumber asciiDigit (py "800") := .whole ⟨by decide, by decide⟩

theorem numeric_gate_iff_range :
    (numbersAreBacked asciiDigit (py "800") (py "300-800 K") = true ↔
      Occurs asciiDigit (py "800") (py "300-800 K")) ↔
    (Plain asciiDigit (py "800") (py "300-800 K") ∨
      (Chained asciiDigit (py "800") (py "300-800 K") ↔
        Ranged asciiDigit (py "800") (py "300-800 K"))) :=
  numeric_gate_iff (by decide) (by decide) isNumber_range _

/-- The end of a range is not found, and a piece of a version number is. -/
theorem gate_misses_range_end :
    (IsNumber asciiDigit (py "800") ∧
      numbersAreBacked asciiDigit (py "800") (py "300-800 K") = false ∧
      Occurs asciiDigit (py "800") (py "300-800 K")) ∧
    IsNumber asciiDigit (py "3") ∧ numbersAreBacked asciiDigit (py "3") (py "1.2.3") = true ∧
      ¬ Occurs asciiDigit (py "3") (py "1.2.3") := by
  refine ⟨⟨isNumber_range, by decide, py "300-", py " K", by decide, ?_⟩,
    .whole ⟨by decide, by decide⟩, by decide, ?_⟩
  · have hends : EndsDigit asciiDigit (py "300" ++ [45]) ↔ _ := endsDigit_concat
    have hpoint : EndsDigitPoint asciiDigit (py "300" ++ [45]) ↔ _ := endsDigitPoint_concat
    constructor
    case digit => exact fun h => absurd (hends.mp h) (by decide)
    case point => exact fun h => absurd (hpoint.mp h).1 (by decide)
    case sign => exact fun _ => ⟨py "300", rfl, py "30", 48, rfl, rfl⟩
    case next =>
      rintro ⟨d, rest, heq, hd⟩
      obtain ⟨rfl, _⟩ := List.cons.inj heq
      cases hd
    case places =>
      rintro ⟨rest, heq, _⟩
      cases (List.cons.inj heq).1
  · rintro ⟨before, after, hquote, hcomplete⟩
    have hsplit : [49, 46, 50, 46, 51] = before ++ 51 :: after := by
      rw [List.append_assoc] at hquote
      exact hquote
    -- the three stands at the end, behind a digit and a point
    rcases before with _ | ⟨a, _ | ⟨b, _ | ⟨c, _ | ⟨d, _ | ⟨e, rest⟩⟩⟩⟩⟩
    case nil => cases (List.cons.inj hsplit).1
    all_goals simp at hsplit
    obtain ⟨rfl, rfl, rfl, rfl, rfl⟩ := hsplit
    exact hcomplete.point ⟨[49, 46, 50], rfl, [49, 46], 50, rfl, rfl⟩

end NumericGate
