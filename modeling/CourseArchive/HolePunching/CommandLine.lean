import CourseArchive.HolePunching.ClientMachine

/-! The commands that the user of a client types. Characters stand as their codes: 10 and 13 end a line, 32 is the
blank, 43 and 45 are the signs, 48 to 57 the digits, 58 is the colon. -/

namespace CourseArchive.HolePunching

open Lib

/-- `getline` until it fails; `tok` is what it has read of its token. Behind the last delimiter only a token that
is not empty counts. -/
def splitFrom (delimiter : UInt8) : (str tok : List UInt8) → List (List UInt8)
  | [], tok => if tok = [] then [] else [tok]
  | c :: str, tok =>
    if c = delimiter then tok :: splitFrom delimiter str [] else splitFrom delimiter str (tok ++ [c])

def split (str : List UInt8) (delimiter : UInt8) : List (List UInt8) := splitFrom delimiter str []

def isSpace (c : UInt8) : Bool := c = 32 || (9 ≤ c && c ≤ 13)

def isDigit (c : UInt8) : Bool := 48 ≤ c && c ≤ 57

def digitsValue (digits : List UInt8) : ℕ := digits.foldl (fun v c => 10 * v + (c.toNat - 48)) 0

/-- `none` is an exception: no number, or one that is no `int`. -/
def stoi (str : List UInt8) : Option ℤ :=
  let str := str.dropWhile isSpace
  let negative := str.head? = some 45
  let digits := (if str.head? = some 45 ∨ str.head? = some 43 then str.tail else str).takeWhile isDigit
  let value : ℤ := if negative then -digitsValue digits else digitsValue digits
  if digits ≠ [] ∧ -2 ^ 31 ≤ value ∧ value < 2 ^ 31 then some value else none

/-- The `.` of a pattern stands for no end of a line. -/
def isAny (c : UInt8) : Bool := c ≠ 10 && c ≠ 13

def regexMatch (command : List UInt8) (text : String) : Bool :=
  (bytes text).isPrefixOf command && (command.drop (bytes text).length).all isAny

inductive InputTypeClient
  | makeConnection | getIdInfo | makeLocalSession | makePublicSession | sendMsg | status
  deriving DecidableEq

structure ClientInput where
  iType : Option InputTypeClient
  id : Fin 32
  sourcePort : UInt16
  msg : List UInt8
  msgLength : ℤ
  deriving DecidableEq

namespace ClientInput

def zero : ClientInput := ⟨none, 0, 0, [], 0⟩

/-- The length of the text is cast to `int`. -/
def message (id : Fin 32) (text : List UInt8) : ClientInput :=
  { zero with iType := some .sendMsg, id := id, msg := text, msgLength := (text.length : ℤ).bmod (2 ^ 32) }

end ClientInput

def numberAt (words : List (List UInt8)) (i : ℕ) : Option UInt16 := (words[i]?.bind stoi).map UInt16.ofInt

def idOf (v : UInt16) : Fin 32 := Fin.ofNat 32 v.toNat

/-- `none` stands for an index behind the end of a vector, or an exception. -/
def parseInput (command : List UInt8) : Option ClientInput :=
  let commandInfo := split command 32
  if regexMatch command "make a connection to server on port " then
    (numberAt commandInfo 7).map fun v => { ClientInput.zero with iType := some .makeConnection, sourcePort := v }
  else if regexMatch command "get info of " then
    (numberAt commandInfo 3).map fun v => { ClientInput.zero with iType := some .getIdInfo, id := idOf v }
  else if regexMatch command "make a local session to " then
    (numberAt commandInfo 5).map fun v => { ClientInput.zero with iType := some .makeLocalSession, id := idOf v }
  else if regexMatch command "make a public session to " then
    (numberAt commandInfo 5).map fun v => { ClientInput.zero with iType := some .makePublicSession, id := idOf v }
  else if regexMatch command "send msg to " then
    match commandInfo[3]?, (split command 58)[1]? with
    | some word, some text => (numberAt (split word 58) 0).map fun v => ClientInput.message (idOf v) text
    | _, _ => none
  else if command = bytes "status" then some { ClientInput.zero with iType := some .status }
  else some ClientInput.zero

namespace ClientMachine

variable {n : ℕ}

def run (m : ClientMachine n) (input : ClientInput) : Option (ClientMachine n × Reply n) :=
  match input.iType with
  | some .makeConnection => some (m.makeConnection input.sourcePort)
  | some .getIdInfo => some (m, m.getIdInfo input.id)
  | some .makeLocalSession => some (m.makeSession input.id .requestLocalSession)
  | some .makePublicSession => some (m.makeSession input.id .requestPublicSession)
  | some .sendMsg =>
    -- a length below 0 or a sum that is no `int` stops the program in `new` or `memcpy`
    if m.checkConnection input.id ∧ ¬(0 ≤ input.msgLength ∧ sizeOfHeader + input.msgLength < 2 ^ 31) then none
    else some (m, m.sendMessage input.id (input.msg.take input.msgLength.toNat))
  | some .status => some (m, m.askStatus)
  | none => some (m, ⟨["invalid command"], []⟩)

end ClientMachine

variable {xs ys tok : List UInt8} {d : UInt8}

lemma splitFrom_append (h : d ∉ xs) : splitFrom d (xs ++ ys) tok = splitFrom d ys (tok ++ xs) := by
  induction xs generalizing tok with
  | nil => rw [List.nil_append, List.append_nil]
  | cons c xs ih =>
    obtain ⟨hc, hxs⟩ := not_or.mp (mt List.mem_cons.mpr h)
    rw [List.cons_append, splitFrom, if_neg (Ne.symm hc), ih hxs, List.append_assoc, List.singleton_append]

lemma split_append_cons (h : d ∉ xs) : split (xs ++ d :: ys) d = xs :: split ys d := by
  rw [split, splitFrom_append h, splitFrom, if_pos rfl, List.nil_append, split]

lemma splitFrom_head (h : xs ≠ [] ∨ tok ≠ []) : (splitFrom d xs tok)[0]? = some (tok ++ xs.takeWhile (· ≠ d)) := by
  induction xs generalizing tok with
  | nil => simp [splitFrom, h.resolve_left (fun h => h rfl)]
  | cons c xs ih =>
    rw [splitFrom]
    by_cases hc : c = d
    · simp [hc]
    · rw [if_neg hc, ih (Or.inr (by simp)), List.takeWhile_cons_of_pos (by simpa using hc), List.append_assoc,
        List.singleton_append]

lemma split_head (h : xs ≠ []) : (split xs d)[0]? = some (xs.takeWhile (· ≠ d)) := splitFrom_head (Or.inl h)

def sendCommand (id : Fin 32) (m : List UInt8) : List UInt8 :=
  bytes "send msg to " ++ (bytes (toString id.val) ++ 58 :: m)

lemma bytes_id : ∀ id : Fin 32, stoi (bytes (toString id.val)) = some (id.val : ℤ) ∧
    ∀ c ∈ bytes (toString id.val), isAny c = true ∧ c ≠ 32 ∧ c ≠ 58 := by
  decide +kernel

variable {id : Fin 32} {m : List UInt8}

lemma split_sendCommand_space (id : Fin 32) (m : List UInt8) :
    ∃ word, (split (sendCommand id m) 32)[3]? = some word ∧
    (split word 58)[0]? = some (bytes (toString id.val)) := by
  have hid := (bytes_id id).2
  have hcolon : (58 : UInt8) ∉ bytes (toString id.val) := fun h => (hid 58 h).2.2 rfl
  have hwords : sendCommand id m = [115, 101, 110, 100] ++ 32 :: ([109, 115, 103] ++ 32 :: ([116, 111] ++ 32 ::
    (bytes (toString id.val) ++ 58 :: m))) := rfl
  have hne : bytes (toString id.val) ++ 58 :: m ≠ [] := by simp
  refine ⟨(bytes (toString id.val) ++ 58 :: m).takeWhile (· ≠ 32), ?_, ?_⟩
  · rw [hwords, split_append_cons (by decide), split_append_cons (by decide), split_append_cons (by decide)]
    rw [List.getElem?_cons_succ, List.getElem?_cons_succ, List.getElem?_cons_succ, split_head hne]
  · rw [List.takeWhile_append_of_pos fun c hc => by simpa using (hid c hc).2.1]
    rw [List.takeWhile_cons_of_pos (by decide), split_append_cons hcolon]
    rfl

lemma split_sendCommand_colon : (split (sendCommand id m) 58)[1]? = (split m 58)[0]? := by
  have hcolon : (58 : UInt8) ∉ bytes "send msg to " ++ bytes (toString id.val) := by
    rw [List.mem_append, not_or]
    exact ⟨by decide, fun h => ((bytes_id id).2 58 h).2.2 rfl⟩
  rw [sendCommand, ← List.append_assoc, split_append_cons hcolon]
  rfl

lemma regexMatch_append (text : String) (rest : List UInt8) :
    regexMatch (bytes text ++ rest) text = rest.all isAny := by
  simp [regexMatch]

lemma regexMatch_of_head {command : List UInt8} {text : String} {c d : UInt8} (hc : command.head? = some c)
    (hd : (bytes text).head? = some d) (h : d ≠ c) : regexMatch command text = false := by
  obtain ⟨command, rfl⟩ := List.head?_eq_some_iff.mp hc
  obtain ⟨rest, hrest⟩ := List.head?_eq_some_iff.mp hd
  rw [regexMatch, hrest, List.isPrefixOf_cons_cons, beq_eq_false_iff_ne.mpr h, Bool.false_and, Bool.false_and]

lemma parseInput_sendCommand : parseInput (sendCommand id m) =
    if m.all isAny then ((split m 58)[0]?).map (ClientInput.message id) else some ClientInput.zero := by
  obtain ⟨word, hword, hidText⟩ := split_sendCommand_space id m
  have hany : regexMatch (sendCommand id m) "send msg to " = m.all isAny := by
    rw [sendCommand, regexMatch_append, List.all_append, List.all_cons,
      List.all_eq_true.mpr fun c hc => ((bytes_id id).2 c hc).1]
    rfl
  have hnumber : numberAt (split word 58) 0 = some (UInt16.ofInt id) := by
    rw [numberAt, hidText, Option.bind_some, (bytes_id id).1, Option.map_some]
  have hidOf : ∀ i : Fin 32, idOf (UInt16.ofInt i) = i := by decide
  have hstatus : sendCommand id m ≠ bytes "status" := by
    intro h
    have hsecond := congrArg (·[1]?) h
    cases hsecond
  have hhead : (sendCommand id m).head? = some 115 := rfl
  have hm : ∀ text, (bytes text).head? = some 109 → regexMatch (sendCommand id m) text = false :=
    fun text h => regexMatch_of_head hhead h (by decide)
  have hg : regexMatch (sendCommand id m) "get info of " = false :=
    regexMatch_of_head hhead rfl (by decide : (103 : UInt8) ≠ 115)
  rw [parseInput, hm _ rfl, hg, hm _ rfl, hm _ rfl, if_neg Bool.false_ne_true, if_neg Bool.false_ne_true,
    if_neg Bool.false_ne_true, if_neg Bool.false_ne_true, hany, hword, split_sendCommand_colon, if_neg hstatus]
  cases (split m 58)[0]? with
  | none => rfl
  | some text =>
    simp only [hnumber, Option.map_some, hidOf]

end CourseArchive.HolePunching
