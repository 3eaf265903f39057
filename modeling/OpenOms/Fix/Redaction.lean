import Mathlib.Data.List.Forall2

/-!
Redaction of the FIX session log: the values of the secret tags are taken out of
every line before it is logged. A text is the list of its characters.
-/
namespace OmsRedaction

def SOH : Char := '\x01'

def secretFixTags : List (List Char) := ["553".toList, "554".toList, "96".toList]

def splitOnce (sep : Char) : List Char → Option (List Char × List Char)
  | [] => none
  | c :: rest =>
    if c = sep then some ([], rest) else (splitOnce sep rest).map fun (l, r) => (c :: l, r)

def redactField (field : List Char) : List Char :=
  match splitOnce '=' field with
  | some (tag, _) => if tag ∈ secretFixTags then tag ++ "=<redacted>".toList else field
  | none => field

def redactFixSecrets (msg : List Char) : List Char :=
  [SOH].intercalate ((msg.splitOn SOH).map redactField)

def eventLine (msg : List Char) : List Char :=
  (redactFixSecrets msg).map fun c => if c = SOH then '|' else c

structure Field where
  tag : List Char
  value : List Char
  bareTag : '=' ∉ tag ∧ SOH ∉ tag
  bareValue : SOH ∉ value
  deriving DecidableEq

def Field.text (f : Field) : List Char := f.tag ++ '=' :: f.value

def Field.secret (f : Field) : Bool := f.tag ∈ secretFixTags

structure Log where
  words : List Char
  bareWords : '=' ∉ words ∧ SOH ∉ words
  beginString : List Char
  bareBegin : SOH ∉ beginString
  fields : List Field
  closed : Bool
  deriving DecidableEq

/-- What stands before the first separator. -/
def Log.opening (log : Log) : List Char := log.words ++ "8=".toList ++ log.beginString

def Log.pieces (log : Log) : List (List Char) :=
  log.opening :: log.fields.map Field.text ++ if log.closed then [[]] else []

def Log.line (log : Log) : List Char := [SOH].intercalate log.pieces

/-- The two differ in nothing but the values of secret tags. -/
structure SameButSecrets (a b : Log) : Prop where
  words : a.words = b.words
  beginString : a.beginString = b.beginString
  closed : a.closed = b.closed
  fields : List.Forall₂ (fun f g => f.tag = g.tag ∧ (f.secret = false → f.value = g.value))
    a.fields b.fields

theorem split_once_first {sep : Char} {left : List Char} (free : sep ∉ left)
    (right : List Char) : splitOnce sep (left ++ sep :: right) = some (left, right) := by
  induction left with
  | nil => simp [splitOnce]
  | cons c left ih =>
    have other : sep ≠ c := fun same => free (by simp [same])
    have rest : sep ∉ left := fun member => free (List.mem_cons_of_mem c member)
    simp [splitOnce, Ne.symm other, ih rest]

theorem split_once_joins {sep : Char} {text left right : List Char}
    (split : splitOnce sep text = some (left, right)) :
    text = left ++ sep :: right ∧ sep ∉ left := by
  induction text generalizing left with
  | nil => cases split
  | cons c text ih =>
    unfold splitOnce at split
    split at split
    · rename_i same
      cases split
      simp [same]
    · rename_i other
      obtain ⟨⟨l, r⟩, found, parts⟩ := Option.map_eq_some_iff.mp split
      cases parts
      obtain ⟨joined, free⟩ := ih found
      constructor
      · rw [joined]
        rfl
      · exact List.not_mem_cons_of_ne_of_not_mem (Ne.symm other) free

theorem redact_field_secret {f : Field} (secret : f.secret = true) :
    redactField f.text = f.tag ++ "=<redacted>".toList := by
  have known : f.tag ∈ secretFixTags := by simpa [Field.secret] using secret
  simp only [redactField, Field.text, split_once_first f.bareTag.1, known, if_true]

theorem redact_field_plain {f : Field} (plain : f.secret = false) :
    redactField f.text = f.text := by
  have other : f.tag ∉ secretFixTags := by simpa [Field.secret] using plain
  simp only [redactField, Field.text, split_once_first f.bareTag.1, other, if_false]

theorem redact_opening (log : Log) : redactField log.opening = log.opening := by
  have bare : '=' ∉ log.words ++ ['8'] := by
    simp only [List.mem_append, List.mem_singleton, not_or]
    exact ⟨log.bareWords.1, by decide⟩
  have parts : log.opening = (log.words ++ ['8']) ++ '=' :: log.beginString := by
    simp [Log.opening]
  have known : ∀ tag ∈ secretFixTags, tag.getLast? ≠ some '8' := by decide
  have other : log.words ++ ['8'] ∉ secretFixTags := fun member => known _ member (by simp)
  rw [redactField, parts, split_once_first bare]
  simp only [other, if_false]

theorem redact_field_idem (field : List Char) :
    redactField (redactField field) = redactField field := by
  cases split : splitOnce '=' field with
  | none =>
    have same : redactField field = field := by simp [redactField, split]
    rw [same, same]
  | some parts =>
    obtain ⟨tag, value⟩ := parts
    by_cases secret : tag ∈ secretFixTags
    · have hidden : redactField field = tag ++ '=' :: "<redacted>".toList := by
        simp [redactField, split, secret]
      have again := split_once_first (split_once_joins split).2 "<redacted>".toList
      rw [hidden, redactField, again]
      simp [secret]
    · have same : redactField field = field := by simp [redactField, split, secret]
      rw [same, same]

theorem redact_field_bare {field : List Char} (bare : SOH ∉ field) : SOH ∉ redactField field := by
  unfold redactField
  split
  · rename_i tag value split
    split
    · have joined := (split_once_joins split).1
      have tagBare : SOH ∉ tag := fun member => bare (by simp [joined, member])
      simp only [List.mem_append, not_or]
      exact ⟨tagBare, by decide⟩
    · exact bare
  · exact bare

theorem split_on_bare {A : Type} [DecidableEq A] {sep : A} {text : List A} :
    ∀ piece ∈ text.splitOn sep, sep ∉ piece := by
  induction text with
  | nil => simp [List.splitOn_nil]
  | cons c text ih =>
    intro piece member
    rw [List.splitOn_cons_eq_if_modifyHead] at member
    split at member
    · rcases List.mem_cons.mp member with rfl | later
      · simp
      · exact ih piece later
    · rename_i other
      cases pieces : text.splitOn sep with
      | nil => exact absurd pieces (List.splitOn_ne_nil sep text)
      | cons first rest =>
        rw [pieces, List.modifyHead_cons] at member
        rw [pieces] at ih
        rcases List.mem_cons.mp member with rfl | later
        · have differ : sep ≠ c := fun same => other (by simp [same])
          exact List.not_mem_cons_of_ne_of_not_mem differ (ih first (by simp))
        · exact ih piece (List.mem_cons_of_mem _ later)

theorem split_redacted (msg : List Char) :
    (redactFixSecrets msg).splitOn SOH = (msg.splitOn SOH).map redactField := by
  refine List.splitOn_intercalate SOH ?_ ?_
  · intro piece member
    obtain ⟨field, there, rfl⟩ := List.mem_map.mp member
    exact redact_field_bare (split_on_bare field there)
  · rw [Ne, List.map_eq_nil_iff]
    exact List.splitOn_ne_nil SOH msg

theorem redact_idem (msg : List Char) :
    redactFixSecrets (redactFixSecrets msg) = redactFixSecrets msg := by
  have twice : ((msg.splitOn SOH).map redactField).map redactField =
      (msg.splitOn SOH).map redactField := by
    rw [List.map_map]
    exact List.map_congr_left fun field _ => redact_field_idem field
  rw [redactFixSecrets, split_redacted, twice]
  rfl

theorem opening_bare (log : Log) : SOH ∉ log.opening := by
  simp only [Log.opening, List.mem_append, not_or]
  exact ⟨⟨log.bareWords.2, by decide⟩, log.bareBegin⟩

theorem field_bare (f : Field) : SOH ∉ f.text := by
  simp only [Field.text, List.mem_append, List.mem_cons, not_or]
  exact ⟨f.bareTag.2, by decide, f.bareValue⟩

theorem split_line (log : Log) : log.line.splitOn SOH = log.pieces := by
  refine List.splitOn_intercalate SOH ?_ (by simp [Log.pieces])
  intro piece member
  simp only [Log.pieces, List.cons_append, List.mem_cons, List.mem_append, List.mem_map] at member
  rcases member with rfl | ⟨f, _, rfl⟩ | ending
  · exact opening_bare log
  · exact field_bare f
  · split at ending
    · simp [List.mem_singleton.mp ending]
    · cases ending

theorem split_redacted_line (log : Log) : (redactFixSecrets log.line).splitOn SOH =
    log.opening :: log.fields.map (fun f => redactField f.text) ++
      if log.closed then [[]] else [] := by
  have ending : (if log.closed then [[]] else []).map redactField =
      if log.closed then [([] : List Char)] else [] := by
    cases log.closed <;> rfl
  rw [split_redacted, split_line, Log.pieces, List.map_append, List.map_cons, redact_opening,
    List.map_map, ending]
  rfl

theorem redacted_fields_agree {fs gs : List Field}
    (same : List.Forall₂ (fun f g => f.tag = g.tag ∧ (f.secret = false → f.value = g.value)) fs gs) :
    fs.map (fun f => redactField f.text) = gs.map fun g => redactField g.text := by
  induction same with
  | nil => rfl
  | @cons f g fs gs head _ ih =>
    obtain ⟨tag, value⟩ := head
    have both : f.secret = g.secret := by simp [Field.secret, tag]
    have here : redactField f.text = redactField g.text := by
      cases secret : f.secret with
      | true =>
        rw [redact_field_secret secret, redact_field_secret (both ▸ secret), tag]
      | false =>
        rw [redact_field_plain secret, redact_field_plain (both ▸ secret), Field.text, Field.text,
          tag, value secret]
    rw [List.map_cons, List.map_cons, here, ih]

theorem redact_hides {a b : Log} (same : SameButSecrets a b) :
    redactFixSecrets a.line = redactFixSecrets b.line := by
  have opening : a.opening = b.opening := by
    rw [Log.opening, Log.opening, same.words, same.beginString]
  have pieces : (redactFixSecrets a.line).splitOn SOH = (redactFixSecrets b.line).splitOn SOH := by
    rw [split_redacted_line, split_redacted_line, opening, redacted_fields_agree same.fields,
      same.closed]
  have joined := congrArg [SOH].intercalate pieces
  rwa [List.intercalate_splitOn, List.intercalate_splitOn] at joined

/-- Two texts that differ in secrets are logged alike, every other field stays where
    and what it is, and a redacted text is redacted already. -/
theorem redaction_exact (a b : Log) :
    (SameButSecrets a b →
        redactFixSecrets a.line = redactFixSecrets b.line ∧ eventLine a.line = eventLine b.line) ∧
      ((redactFixSecrets a.line).splitOn SOH).length = (a.line.splitOn SOH).length ∧
      ((redactFixSecrets a.line).splitOn SOH)[0]? = some a.opening ∧
      (∀ i f, a.fields[i]? = some f → f.tag ∉ secretFixTags →
        ((redactFixSecrets a.line).splitOn SOH)[i + 1]? = some (f.tag ++ '=' :: f.value)) ∧
      redactFixSecrets (redactFixSecrets a.line) = redactFixSecrets a.line := by
  refine ⟨?_, ?_, ?_, ?_, redact_idem a.line⟩
  · intro same
    have alike := redact_hides same
    exact ⟨alike, by rw [eventLine, eventLine, alike]⟩
  · rw [split_redacted, List.length_map]
  · rw [split_redacted_line]
    rfl
  · intro i f there other
    have plain : f.secret = false := by simpa [Field.secret] using other
    obtain ⟨inside, _⟩ := List.getElem?_eq_some_iff.mp there
    rw [split_redacted_line, List.cons_append, List.getElem?_cons_succ,
      List.getElem?_append_left (by simpa using inside), List.getElem?_map, there,
      Option.map_some, redact_field_plain plain, Field.text]

def logon (password : List Char) (bare : SOH ∉ password) : Log where
  words := "toApp: ".toList
  bareWords := by decide
  beginString := "FIX.4.4".toList
  bareBegin := by decide
  fields := [⟨"35".toList, "A".toList, by decide, by decide⟩,
    ⟨"554".toList, password, by decide, bare⟩]
  closed := true

def oldLogon : Log := logon "hunter2".toList (by decide)

def newLogon : Log := logon "s=cret".toList (by decide)

theorem passwords_logged_alike : SameButSecrets oldLogon newLogon ∧
    redactFixSecrets oldLogon.line = redactFixSecrets newLogon.line ∧
    ((redactFixSecrets oldLogon.line).splitOn SOH)[1]? = some "35=A".toList := by
  have same : SameButSecrets oldLogon newLogon :=
    ⟨rfl, rfl, rfl, .cons ⟨rfl, fun _ => rfl⟩ (.cons ⟨rfl, by decide⟩ .nil)⟩
  have exact_ := redaction_exact oldLogon newLogon
  exact ⟨same, (exact_.1 same).1, exact_.2.2.2.1 0 _ rfl (by decide)⟩

end OmsRedaction
