import Fidensur.BrowserPolicy
import Fidensur.MoneyText

set_option autoImplicit false

namespace Fidensur.RecipientList

open HexText JsText MoneyText BrowserPolicy DigitText

/-- A split at `/\r?\n/`. -/
def splitLines : Text → List Text
  | [] => [[]]
  | '\r' :: '\n' :: rest => [] :: splitLines rest
  | '\n' :: rest => [] :: splitLines rest
  | c :: rest => (splitLines rest).modifyHead (c :: ·)

/-- The pattern `^0x[0-9a-fA-F]{40}$`. -/
def isAddress : Text → Bool
  | '0' :: 'x' :: digits => digits.length == 40 && digits.all isHexDigit
  | _ => false

def isData (line : Text) : Bool := !line.isEmpty && line.head? != some '#'

def columns (line : Text) : List Text := (line.splitOn ',').map trim

variable (mode decimals : ℕ)

/-- The number a value column denotes in a mode, unless the conversion throws. -/
def convert (valueRaw : Text) : Option ℤ :=
  if mode = 0 then (parseUnits valueRaw decimals).toOption else bigInt valueRaw

def makeEntry (addressRaw : Text) (value : ℤ) : BrowserPolicy.PolicyEntry :=
  if mode = 0 then ⟨addressRaw, 0, value⟩ else ⟨addressRaw, value, 0⟩

inductive Outcome
  | entry (entry : BrowserPolicy.PolicyEntry)
  | error (message : Text)
  | dropped

def Outcome.asEntry : Outcome → Option BrowserPolicy.PolicyEntry
  | .entry e => some e
  | _ => none

def Outcome.asError : Outcome → Option Text
  | .error message => some message
  | _ => none

def lineError (number : ℕ) (message : Text) : Text :=
  "line ".toList ++ toText number ++ ": ".toList ++ message

/-- One pass of the loop of `parseRecipientCsv`; a missing column counts as an empty one. -/
def parseLine (index : ℕ) (line : Text) : Outcome :=
  let addressRaw := (columns line).getD 0 []
  let valueRaw := (columns line).getD 1 []
  if addressRaw = [] ∨ valueRaw = [] then
    .error (lineError (index + 1) "expected \"address, value\"".toList)
  else if index = 0 ∧ isAddress addressRaw = false then .dropped
  else if isAddress addressRaw = false then
    .error (lineError (index + 1) ("\"".toList ++ addressRaw ++ "\" is not an address".toList))
  else
    match convert mode decimals valueRaw with
    | none => .error (lineError (index + 1) ("\"".toList ++ valueRaw ++ "\" is not a valid number".toList))
    | some value => .entry (makeEntry mode addressRaw value)

structure ParsedList where
  entries : List BrowserPolicy.PolicyEntry
  errors : List Text

def parseRecipientCsv (csv : Text) (mode decimals : ℕ) : ParsedList :=
  let lines := ((splitLines csv).map trim).filter isData
  let outcomes := lines.zipIdx.map (fun (line, index) => parseLine mode decimals index line)
  ⟨outcomes.filterMap Outcome.asEntry, outcomes.filterMap Outcome.asError⟩

section Grammar

structure DataLine where
  number : ℕ
  text : Text

def dataLines (csv : Text) : List DataLine :=
  (((splitLines csv).map trim).zipIdx.map (fun (line, i) => ⟨i + 1, line⟩)).filter (fun l => isData l.text)

def validValue (value : Text) : Option ℤ := if value = [] then none else convert mode decimals value

def expectedEntry (line : Text) : Option BrowserPolicy.PolicyEntry :=
  match columns line with
  | [address, value] =>
    if isAddress address then (validValue mode decimals value).map (makeEntry mode address) else none
  | _ => none

def isHeader (line : Text) : Bool :=
  !isAddress ((columns line).getD 0 []) && (validValue mode decimals ((columns line).getD 1 [])).isNone

def body (csv : Text) : List DataLine :=
  match dataLines csv with
  | [] => []
  | l :: ls => if isHeader mode decimals l.text then ls else l :: ls

def Names (error : Text) (number : ℕ) : Prop := "line ".toList ++ toText number ++ ": ".toList <+: error

/-- An entry for every line of the grammar and a numbered error for every other one. -/
structure Exact (csv : Text) (parsed : ParsedList) : Prop where
  entries : parsed.entries = (body mode decimals csv).filterMap (fun l => expectedEntry mode decimals l.text)
  errors : List.Forall₂ Names parsed.errors
    (((body mode decimals csv).filter (fun l => (expectedEntry mode decimals l.text).isNone)).map DataLine.number)

/-- Lists on which the parser keeps to its grammar. -/
structure Plain (csv : Text) : Prop where
  header : ∀ l, (dataLines csv)[0]? = some l → isAddress ((columns l.text).getD 0 []) = false →
    ((validValue mode decimals ((columns l.text).getD 1 [])).isSome = true ↔
      (columns l.text).getD 0 [] = [] ∨ (columns l.text).getD 1 [] = [])
  columns : ∀ l ∈ dataLines csv, 2 < (columns l.text).length →
    isAddress ((RecipientList.columns l.text).getD 0 []) = false ∨
      validValue mode decimals ((RecipientList.columns l.text).getD 1 []) = none
  numbered : ∀ i l, (dataLines csv)[i]? = some l → expectedEntry mode decimals l.text = none →
    (i = 0 → isHeader mode decimals l.text = false) → l.number = i + 1

end Grammar

section Lists

variable {α β γ : Type} {xs : List α}

theorem filterMap_eq_iff {f g : α → Option β} (h : ∀ x y, g x = some y → f x = some y) :
    xs.filterMap f = xs.filterMap g ↔ ∀ x ∈ xs, f x = g x := by
  have hlength (ys : List α) : (ys.filterMap g).length ≤ (ys.filterMap f).length := by
    induction ys with
    | nil => exact le_rfl
    | cons y ys ih =>
      cases hg : g y with
      | none =>
        rw [List.filterMap_cons_none hg]
        cases hf : f y with
        | none => rwa [List.filterMap_cons_none hf]
        | some b =>
          rw [List.filterMap_cons_some hf]
          exact ih.trans (Nat.le_succ _)
      | some b =>
        rw [List.filterMap_cons_some hg, List.filterMap_cons_some (h y b hg)]
        exact Nat.succ_le_succ ih
  constructor
  · induction xs with
    | nil => nofun
    | cons x xs ih =>
      intro heq
      cases hg : g x with
      | none =>
        cases hf : f x with
        | none =>
          rw [List.filterMap_cons_none hf, List.filterMap_cons_none hg] at heq
          simpa [hf, hg] using ih heq
        | some b =>
          rw [List.filterMap_cons_some hf, List.filterMap_cons_none hg] at heq
          have hle := hlength xs
          rw [← heq, List.length_cons] at hle
          omega
      | some b =>
        have hf := h x b hg
        rw [List.filterMap_cons_some hf, List.filterMap_cons_some hg] at heq
        simpa [hf, hg] using ih (List.cons.inj heq).2
  · exact fun hall => List.filterMap_congr hall

theorem forall₂_filterMap {R : β → γ → Prop} {f : α → Option β} {p : α → Bool} {g : α → γ}
    (h : ∀ x ∈ xs, (f x = none ∧ p x = false) ∨ ∃ y, f x = some y ∧ p x = true ∧ R y (g x)) :
    List.Forall₂ R (xs.filterMap f) ((xs.filter p).map g) := by
  induction xs with
  | nil => exact .nil
  | cons x xs ih =>
    have hrest := ih (fun y hy => h y (List.mem_cons_of_mem _ hy))
    rcases h x List.mem_cons_self with ⟨hf, hp⟩ | ⟨y, hf, hp, hr⟩
    · rw [List.filterMap_cons_none hf, List.filter_cons_of_neg (by simp [hp])]
      exact hrest
    · rw [List.filterMap_cons_some hf, List.filter_cons_of_pos hp, List.map_cons]
      exact .cons hr hrest

theorem forall₂_iff_eq {R : β → γ → Prop} (hR : ∀ b c d, R b c → R b d → c = d) {ys : List β}
    {zs ws : List γ} (h : List.Forall₂ R ys zs) : List.Forall₂ R ys ws ↔ zs = ws := by
  constructor
  · intro h'
    induction h generalizing ws with
    | nil => cases h'; rfl
    | cons hr _ ih =>
      cases h' with
      | cons hr' hrest => rw [hR _ _ _ hr hr', ih hrest]
  · rintro rfl
    exact h

theorem map_filter_eq_iff {p q : α → Bool} {f g : α → β} {x : α} (h : ∀ y ∈ xs, p y = q y) :
    ((x :: xs).filter p).map f = ((x :: xs).filter q).map g ↔
      p x = q x ∧ ∀ y ∈ x :: xs, p y = true → f y = g y := by
  have hrest : xs.filter p = xs.filter q := List.filter_congr h
  constructor
  · intro heq
    have hx : p x = q x := by
      have hlength := congrArg List.length heq
      rw [List.length_map, List.length_map, List.filter_cons, List.filter_cons, hrest] at hlength
      cases hp : p x <;> cases hq : q x <;> simp [hp, hq] at hlength ⊢
    have hall : (x :: xs).filter p = (x :: xs).filter q := by
      rw [List.filter_cons, List.filter_cons, hx, hrest]
    rw [← hall, List.map_inj_left] at heq
    exact ⟨hx, fun y hy hp => heq y (List.mem_filter.mpr ⟨hy, hp⟩)⟩
  · rintro ⟨hx, hall⟩
    rw [List.filter_cons, List.filter_cons, ← hx, ← hrest, ← List.filter_cons]
    rw [List.map_inj_left]
    intro y hy
    exact hall y (List.mem_filter.mp hy).1 (List.mem_filter.mp hy).2

end Lists

section Lines

variable {mode decimals : ℕ} {line : Text}

def codeEntry (mode decimals : ℕ) (line : Text) : Option BrowserPolicy.PolicyEntry :=
  if isAddress ((columns line).getD 0 []) then
    (validValue mode decimals ((columns line).getD 1 [])).map (makeEntry mode ((columns line).getD 0 []))
  else none

/-- Lines that `parseLine` takes for a header when they come first. -/
def dropped (line : Text) : Bool :=
  !isAddress ((columns line).getD 0 []) && !((columns line).getD 0 []).isEmpty &&
    !((columns line).getD 1 []).isEmpty

theorem isAddress_nil : isAddress [] = false := rfl

theorem validValue_nil : validValue mode decimals [] = none := rfl

theorem validValue_of_ne_nil {value : Text} (h : value ≠ []) :
    validValue mode decimals value = convert mode decimals value := if_neg h

theorem names_lineError (number : ℕ) (message : Text) : Names (lineError number message) number :=
  List.prefix_append _ _

theorem names_unique {error : Text} {m n : ℕ} (hm : Names error m) (hn : Names error n) : m = n := by
  obtain ⟨rest, hrest⟩ := hm
  obtain ⟨rest', hrest'⟩ := hn
  have heq := hrest.trans hrest'.symm
  simp only [List.append_assoc, List.append_cancel_left_eq] at heq
  have htext := (append_cons_inj (notMem_toText (by decide) (by decide) m)
    (notMem_toText (by decide) (by decide) n) heq).1
  have hvalue := congrArg (fun t => Nat.ofDigitChars 10 t 0) htext
  simpa [ofDigitChars_toText] using hvalue

theorem parseLine_spec (mode decimals index : ℕ) (line : Text) :
    (parseLine mode decimals index line).asEntry = codeEntry mode decimals line ∧
    (((parseLine mode decimals index line).asError = none ∧
        ((codeEntry mode decimals line).isNone && !(index == 0 && dropped line)) = false) ∨
      ∃ message, (parseLine mode decimals index line).asError = some message ∧
        ((codeEntry mode decimals line).isNone && !(index == 0 && dropped line)) = true ∧
        Names message (index + 1)) := by
  simp only [parseLine, codeEntry, dropped]
  generalize (columns line).getD 0 [] = addressRaw
  generalize (columns line).getD 1 [] = valueRaw
  by_cases hempty : addressRaw = [] ∨ valueRaw = []
  · have hentry : (if isAddress addressRaw then
        (validValue mode decimals valueRaw).map (makeEntry mode addressRaw) else none) = none := by
      rcases hempty with rfl | rfl
      · rfl
      · rw [validValue_nil, Option.map_none, ite_self]
    have hkept : (!isAddress addressRaw && !addressRaw.isEmpty && !valueRaw.isEmpty) = false := by
      rcases hempty with rfl | rfl <;> simp
    rw [if_pos hempty, hentry, hkept]
    exact ⟨rfl, .inr ⟨_, rfl, by simp, names_lineError _ _⟩⟩
  · obtain ⟨ha, hv⟩ := not_or.mp hempty
    rw [if_neg hempty, validValue_of_ne_nil hv]
    cases haddress : isAddress addressRaw with
    | false =>
      have hdropped : (!false && !addressRaw.isEmpty && !valueRaw.isEmpty) = true := by simp [ha, hv]
      rw [hdropped]
      by_cases hi : index = 0
      · subst hi
        exact ⟨rfl, .inl ⟨rfl, rfl⟩⟩
      · have hindex : (index == 0) = false := by simpa using hi
        simp only [hi, hindex, false_and, reduceIte, Bool.false_eq_true]
        exact ⟨rfl, .inr ⟨_, rfl, rfl, names_lineError _ _⟩⟩
    | true =>
      simp only [Bool.true_eq_false, and_false, reduceIte]
      cases hconvert : convert mode decimals valueRaw with
      | none => exact ⟨rfl, .inr ⟨_, rfl, by simp, names_lineError _ _⟩⟩
      | some value => exact ⟨rfl, .inl ⟨rfl, rfl⟩⟩

theorem codeEntry_of_expected {e : BrowserPolicy.PolicyEntry}
    (h : expectedEntry mode decimals line = some e) : codeEntry mode decimals line = some e := by
  unfold expectedEntry at h
  split at h
  · next address value hcolumns =>
    rw [codeEntry, hcolumns]
    exact h
  · cases h

theorem codeEntry_eq_expected_iff : codeEntry mode decimals line = expectedEntry mode decimals line ↔
    (2 < (columns line).length → isAddress ((columns line).getD 0 []) = false ∨
      validValue mode decimals ((columns line).getD 1 []) = none) := by
  unfold codeEntry expectedEntry
  match hcolumns : columns line with
  | [] => simp [isAddress_nil]
  | [address] => simp [validValue_nil]
  | [address, value] => simp
  | address :: value :: more :: rest =>
    have hlength : 2 < (address :: value :: more :: rest).length := by simp
    simp only [List.getD_cons_zero, List.getD_cons_succ, hlength, true_imp_iff]
    cases isAddress address <;> simp

theorem expected_of_header (h : isHeader mode decimals line = true) :
    expectedEntry mode decimals line = none := by
  rw [isHeader, Bool.and_eq_true, Bool.not_eq_true'] at h
  unfold expectedEntry
  split
  · next address value hcolumns =>
    rw [hcolumns] at h
    exact if_neg (by simpa using h.1)
  · rfl

/-- On a line that is no entry, parser and grammar agree about the header exactly in these cases. -/
theorem dropped_eq_isHeader_iff (h : codeEntry mode decimals line = none) :
    dropped line = isHeader mode decimals line ↔
      (isAddress ((columns line).getD 0 []) = false →
        ((validValue mode decimals ((columns line).getD 1 [])).isSome = true ↔
          (columns line).getD 0 [] = [] ∨ (columns line).getD 1 [] = [])) := by
  unfold codeEntry at h
  unfold dropped isHeader
  generalize (columns line).getD 0 [] = addressRaw at h ⊢
  generalize (columns line).getD 1 [] = valueRaw at h ⊢
  cases isAddress addressRaw with
  | true => simp
  | false =>
    cases addressRaw <;> cases valueRaw <;> cases validValue mode decimals _ <;> simp

end Lines

section Parser

variable (mode decimals : ℕ) (csv : Text)

def positioned (csv : Text) : List (DataLine × ℕ) := (dataLines csv).zipIdx

theorem mem_positioned {l : DataLine} {i : ℕ} : (l, i) ∈ positioned csv ↔ (dataLines csv)[i]? = some l :=
  List.mk_mem_zipIdx_iff_getElem?

theorem dataLines_text : ((splitLines csv).map trim).filter isData = (dataLines csv).map DataLine.text := by
  have hmap : ((splitLines csv).map trim) = (((splitLines csv).map trim).zipIdx.map
      (fun x => (⟨x.2 + 1, x.1⟩ : DataLine))).map DataLine.text := by
    rw [List.map_map]
    exact (List.zipIdx_map_fst 0 _).symm
  rw [hmap, List.filter_map]
  rfl

theorem parsed_entries : (parseRecipientCsv csv mode decimals).entries =
    (positioned csv).filterMap (fun x => codeEntry mode decimals x.1.text) := by
  simp only [parseRecipientCsv, dataLines_text, List.zipIdx_map, List.filterMap_map, positioned]
  apply List.filterMap_congr
  intro x _
  exact (parseLine_spec mode decimals x.2 x.1.text).1

theorem parsed_errors : List.Forall₂ Names (parseRecipientCsv csv mode decimals).errors
    (((positioned csv).filter (fun x => (codeEntry mode decimals x.1.text).isNone &&
      !(x.2 == 0 && dropped x.1.text))).map (fun x => x.2 + 1)) := by
  simp only [parseRecipientCsv, dataLines_text, List.zipIdx_map, List.filterMap_map, positioned]
  apply forall₂_filterMap
  intro x _
  exact (parseLine_spec mode decimals x.2 x.1.text).2

theorem body_eq : body mode decimals csv = ((positioned csv).filter
    (fun x => !(x.2 == 0 && isHeader mode decimals x.1.text))).map Prod.fst := by
  unfold body positioned
  cases dataLines csv with
  | nil => rfl
  | cons l ls =>
    have hrest : (ls.zipIdx 1).filter (fun x => !(x.2 == 0 && isHeader mode decimals x.1.text)) =
        ls.zipIdx 1 := by
      rw [List.filter_eq_self]
      intro x hx
      have hle := List.le_snd_of_mem_zipIdx hx
      have hne : (x.2 == 0) = false := by
        rw [beq_eq_false_iff_ne]
        omega
      rw [hne]
      rfl
    rw [List.zipIdx_cons, List.filter_cons, Nat.zero_add, hrest]
    cases hheader : isHeader mode decimals l.text with
    | true => simp [hheader, List.zipIdx_map_fst]
    | false => simp [hheader, List.zipIdx_map_fst]

theorem positioned_cons {csv : Text} {x : DataLine × ℕ} {xs : List (DataLine × ℕ)}
    (h : positioned csv = x :: xs) : x.2 = 0 ∧ ∀ y ∈ xs, y.2 ≠ 0 := by
  unfold positioned at h
  cases hd : dataLines csv with
  | nil => simp [hd] at h
  | cons l ls =>
    rw [hd, List.zipIdx_cons] at h
    obtain ⟨rfl, rfl⟩ := List.cons.inj h
    refine ⟨rfl, fun y hy => ?_⟩
    have := List.le_snd_of_mem_zipIdx hy
    omega

theorem body_entries : (body mode decimals csv).filterMap (fun l => expectedEntry mode decimals l.text) =
    (positioned csv).filterMap (fun x => expectedEntry mode decimals x.1.text) := by
  rw [body_eq, List.filterMap_map, List.filterMap_filter]
  apply List.filterMap_congr
  intro x _
  cases hheader : isHeader mode decimals x.1.text with
  | true => simp [expected_of_header hheader]
  | false => simp

theorem body_errors : ((body mode decimals csv).filter
      (fun l => (expectedEntry mode decimals l.text).isNone)).map DataLine.number =
    ((positioned csv).filter (fun x => (expectedEntry mode decimals x.1.text).isNone &&
      !(x.2 == 0 && isHeader mode decimals x.1.text))).map (fun x => x.1.number) := by
  rw [body_eq, List.filter_map, List.filter_filter, List.map_map]
  rfl

theorem errors_iff (hentries : ∀ x ∈ positioned csv,
      codeEntry mode decimals x.1.text = expectedEntry mode decimals x.1.text) :
    List.Forall₂ Names (parseRecipientCsv csv mode decimals).errors (((body mode decimals csv).filter
        (fun l => (expectedEntry mode decimals l.text).isNone)).map DataLine.number) ↔
      (∀ l, (dataLines csv)[0]? = some l → expectedEntry mode decimals l.text = none →
        dropped l.text = isHeader mode decimals l.text) ∧
      ∀ i l, (dataLines csv)[i]? = some l → expectedEntry mode decimals l.text = none →
        (i = 0 → dropped l.text = false) → l.number = i + 1 := by
  have hunique : ∀ error m n, Names error m → Names error n → m = n := fun _ _ _ => names_unique
  have hmem (i : ℕ) (l : DataLine) := mem_positioned csv (l := l) (i := i)
  rw [forall₂_iff_eq hunique (parsed_errors mode decimals csv), body_errors]
  cases hz : positioned csv with
  | nil =>
    have hnone (i : ℕ) (l : DataLine) : (dataLines csv)[i]? ≠ some l := by
      intro h
      rw [← hmem, hz] at h
      cases h
    exact iff_of_true rfl ⟨fun l h => absurd h (hnone 0 l), fun i l h => absurd h (hnone i l)⟩
  | cons x xs =>
    obtain ⟨hx, hxs⟩ := positioned_cons hz
    have hrest : ∀ y ∈ xs, ((codeEntry mode decimals y.1.text).isNone && !(y.2 == 0 && dropped y.1.text)) =
        ((expectedEntry mode decimals y.1.text).isNone &&
          !(y.2 == 0 && isHeader mode decimals y.1.text)) := by
      intro y hy
      have hne : (y.2 == 0) = false := by simpa using hxs y hy
      rw [hentries y (by simp [hz, hy]), hne]
      rfl
    have hhead : (dataLines csv)[0]? = some x.1 := by
      rw [← hmem, hz, ← hx]
      exact List.mem_cons_self
    rw [map_filter_eq_iff hrest]
    apply and_congr
    · rw [hentries x (by simp [hz]), hx, hhead]
      cases hexpected : expectedEntry mode decimals x.1.text <;> simp [hexpected]
    · rw [← hz]
      constructor
      · intro h i l hl hnone hdropped
        refine (h (l, i) ((hmem i l).mpr hl) ?_).symm
        rw [hentries (l, i) ((hmem i l).mpr hl), hnone]
        cases hd : dropped l.text with
        | false => simp
        | true =>
          have hi : i ≠ 0 := fun hi => by simp [hdropped hi] at hd
          simp [hi]
      · rintro h ⟨l, i⟩ hy hrejected
        rw [hentries _ hy, Bool.and_eq_true, Option.isNone_iff_eq_none] at hrejected
        refine (h i l ((hmem i l).mp hy) hrejected.1 fun hi => ?_).symm
        simpa [hi] using hrejected.2

end Parser

/-- The parser accepts exactly its grammar, with an error for every other line, on these lists and no
others. -/
theorem parses_exactly_iff (csv : Text) (mode decimals : ℕ) :
    Exact mode decimals csv (parseRecipientCsv csv mode decimals) ↔ Plain mode decimals csv := by
  have hmem (i : ℕ) (l : DataLine) := mem_positioned csv (l := l) (i := i)
  have hline (l : DataLine) (hl : l ∈ dataLines csv) : ∃ i, (l, i) ∈ positioned csv := by
    obtain ⟨i, hi⟩ := List.mem_iff_getElem?.mp hl
    exact ⟨i, (hmem i l).mpr hi⟩
  have hentries : (parseRecipientCsv csv mode decimals).entries =
      (body mode decimals csv).filterMap (fun l => expectedEntry mode decimals l.text) ↔
      ∀ x ∈ positioned csv, codeEntry mode decimals x.1.text = expectedEntry mode decimals x.1.text := by
    rw [parsed_entries, body_entries]
    exact filterMap_eq_iff fun _ _ => codeEntry_of_expected
  constructor
  · rintro ⟨hgot, herrors⟩
    have hagree := hentries.mp hgot
    have hnone {i : ℕ} {l : DataLine} (hl : (dataLines csv)[i]? = some l)
        (h : expectedEntry mode decimals l.text = none) : codeEntry mode decimals l.text = none :=
      (hagree (l, i) ((hmem i l).mpr hl)).trans h
    obtain ⟨hhead, hnumbers⟩ := (errors_iff mode decimals csv hagree).mp herrors
    refine ⟨fun l hl haddress => ?_, fun l hl => ?_, fun i l hl hexpected hi => ?_⟩
    · have hexpected : codeEntry mode decimals l.text = none := by
        rw [codeEntry, haddress]
        rfl
      have hexpected' := (hagree (l, 0) ((hmem 0 l).mpr hl)).symm.trans hexpected
      exact (dropped_eq_isHeader_iff hexpected).mp (hhead l hl hexpected') haddress
    · obtain ⟨i, hi⟩ := hline l hl
      exact codeEntry_eq_expected_iff.mp (hagree (l, i) hi)
    · apply hnumbers i l hl hexpected
      intro h0
      subst h0
      rw [hhead l hl hexpected, hi rfl]
  · rintro ⟨hheader, hcolumns, hnumbered⟩
    have hagree : ∀ x ∈ positioned csv,
        codeEntry mode decimals x.1.text = expectedEntry mode decimals x.1.text := by
      intro x hx
      have hl := List.mem_of_getElem? ((hmem x.2 x.1).mp hx)
      exact codeEntry_eq_expected_iff.mpr (hcolumns x.1 hl)
    have hhead : ∀ l, (dataLines csv)[0]? = some l → expectedEntry mode decimals l.text = none →
        dropped l.text = isHeader mode decimals l.text := by
      intro l hl hexpected
      have hnone := (hagree (l, 0) ((hmem 0 l).mpr hl)).trans hexpected
      exact (dropped_eq_isHeader_iff hnone).mpr (hheader l hl)
    refine ⟨hentries.mpr hagree, (errors_iff mode decimals csv hagree).mpr ⟨hhead, ?_⟩⟩
    intro i l hl hexpected hdropped
    apply hnumbered i l hl hexpected
    intro hi
    subst hi
    rw [← hhead l hl hexpected, hdropped rfl]

def groupedList : Text := "0x00000000000000000000000000000000000000a1, 1,000".toList

/-- The line has three columns, and the parser pays its recipient one unit. -/
theorem grouped_amount_cut :
    ¬ ∀ (csv : Text) (mode decimals : ℕ), Exact mode decimals csv (parseRecipientCsv csv mode decimals) := by
  intro hall
  have hparsed : (parseRecipientCsv groupedList 0 18).entries.map BrowserPolicy.PolicyEntry.amount = [10 ^ 18] := by
    decide
  have hexpected : ((body 0 18 groupedList).filterMap
      (fun l => expectedEntry 0 18 l.text)).map BrowserPolicy.PolicyEntry.amount = [] := by
    decide
  rw [← (hall groupedList 0 18).entries, hparsed] at hexpected
  cases hexpected

end Fidensur.RecipientList
