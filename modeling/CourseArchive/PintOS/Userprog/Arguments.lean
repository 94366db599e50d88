import CourseArchive.Lib.Buffer
import CourseArchive.Lib.Memory
import CourseArchive.PintOS.Library.Strings
import CourseArchive.PintOS.Userprog.UserMemory

/-! Argument passing: `push_arguments` of `userprog/process.c`. -/

namespace CourseArchive.PintOS

open Lib

structure UserStack where
  mem : Memory
  esp : ℕ
  writes : List (ℕ × ℕ)

def lower (esp n : ℕ) : ℕ := (esp + 2 ^ 32 - n % 2 ^ 32) % 2 ^ 32

def UserStack.push (s : UserStack) (bytes : List UInt8) : UserStack :=
  let esp := lower s.esp bytes.length
  ⟨store s.mem esp bytes, esp, s.writes ++ [(esp, bytes.length)]⟩

def le32 (v : ℕ) : List UInt8 := (List.range 4).map fun i => UInt8.ofNat (v / 256 ^ i)

/-- The entries of the array behind `argv` that were not written to are `none`. -/
structure Pushing where
  stack : UserStack
  argv : List (Option ℕ)
  argc : ℕ
  argvSize : ℕ

def setArgv (argv : List (Option ℕ)) (i v : ℕ) : Option (List (Option ℕ)) :=
  if i < argv.length then some (argv.set i (some v)) else none

def reallocArgv (argv : List (Option ℕ)) (size : ℕ) : List (Option ℕ) :=
  (List.range (size / 4)).map fun i => argv.getD i none

def readArgv (argv : List (Option ℕ)) (n : ℕ) : Option (List ℕ) :=
  if n ≤ argv.length then (argv.take n).mapM id else none

def pushArgument (p : Pushing) (buf : List UInt8) (curArg : ℕ) : Option Pushing := do
  let argLen := (← strlen (buf.drop curArg)) + 1
  let stack := p.stack.push ((buf.drop curArg).take argLen)
  let argv ← setArgv p.argv p.argc stack.esp
  let argc := p.argc + 1
  if argc ≥ p.argvSize then
    let argvSize := p.argvSize * 2
    return ⟨stack, reallocArgv argv (argvSize * 4 % 2 ^ 32), argc, argvSize⟩
  else return ⟨stack, argv, argc, p.argvSize⟩

def pushTokens : ℕ → Pushing → List UInt8 → ℕ → Option Pushing
  | 0, _, _, _ => none
  | fuel + 1, p, buf, s => do
    let t ← strtokR [32] buf s
    match t.token with
    | none => return p
    | some curArg => pushTokens fuel (← pushArgument p t.buf curArg) t.buf t.savePtr

/-- The result is `none` where the source reads or writes outside an array of the kernel. -/
def pushArguments (mem : Memory) (esp : ℕ) (command : List UInt8) : Option UserStack := do
  let commandCopy := command ++ [0]
  let p ← pushTokens (command.length + 1) ⟨⟨mem, esp, []⟩, [none], 0, 1⟩ commandCopy 0
  let argv ← setArgv p.argv p.argc 0
  let stack := { p.stack with esp := lower p.stack.esp (p.stack.esp % 4) }
  let pointers ← readArgv argv (p.argc + 1)
  let stack := stack.push (pointers.flatMap le32)
  let curArg := stack.esp
  let stack := stack.push (le32 curArg)
  let stack := stack.push (le32 p.argc)
  return { stack with esp := lower stack.esp 4 }

def total (args : List (List UInt8)) : ℕ := (args.map fun w => w.length + 1).sum

def slot (top : ℕ) (args : List (List UInt8)) (i : ℕ) : ℕ := top - total (args.take (i + 1))

def regions (m : Memory) (esp : ℕ) (args : List (List UInt8)) : List (ℕ × ℕ) :=
  let argv := m.load (esp + 8) 4
  [(esp, 4), (esp + 4, 4), (esp + 8, 4), (argv, 4 * (args.length + 1))] ++
    args.mapIdx fun i w => (m.load (argv + 4 * i) 4, w.length + 1)

structure Layout (m : Memory) (esp top : ℕ) (args : List (List UInt8)) : Prop where
  aligned : esp % 4 = 0
  argc : m.load (esp + 4) 4 = args.length
  null : m.load (m.load (esp + 8) 4 + 4 * args.length) 4 = 0
  strings : ∀ i (hi : i < args.length), Holds m (m.load (m.load (esp + 8) 4 + 4 * i) 4) (args[i] ++ [0])
  within : ∀ r ∈ regions m esp args, esp ≤ r.1 ∧ r.1 + r.2 ≤ top
  apart : (regions m esp args).Pairwise fun r s => r.1 + r.2 ≤ s.1 ∨ s.1 + s.2 ≤ r.1

def stackSpace (top : ℕ) (args : List (List UInt8)) : ℕ :=
  total args + (top - total args) % 4 + 4 * (args.length + 1) + 12

lemma lower_eq {esp n : ℕ} (h : n ≤ esp) (hesp : esp < 2 ^ 32) : lower esp n = esp - n := by
  rw [lower, Nat.mod_eq_of_lt (show n < 2 ^ 32 by omega)]
  omega

@[simp] lemma total_nil : total [] = 0 := rfl

@[simp] lemma total_append (xs ys : List (List UInt8)) : total (xs ++ ys) = total xs + total ys := by simp [total]

@[simp] lemma total_singleton (w : List UInt8) : total [w] = w.length + 1 := by simp [total]

lemma total_take_le (args : List (List UInt8)) (i : ℕ) : total (args.take i) ≤ total args := by
  conv_rhs => rw [← List.take_append_drop i args, total_append]
  omega

@[simp] lemma length_le32 (v : ℕ) : (le32 v).length = 4 := by simp [le32]

lemma load_of_holds {m : Memory} {a v : ℕ} (h : Holds m a (le32 v)) (hv : v < 2 ^ 32) : m.load a 4 = v := by
  rw [Memory.load_bytes m a 4 v fun i hi => ?_]
  · exact Nat.mod_eq_of_lt hv
  · rw [h i (by simpa using hi)]
    simp [le32]

end CourseArchive.PintOS
