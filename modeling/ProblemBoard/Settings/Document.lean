import ProblemBoard.Settings.Basic
import ProblemBoard.Text.Digit
import ProblemBoard.Toml.Document

/-!
# Settings documents

A settings file has one table for each group of settings.  What is missing keeps its
default, unknown keys are passed over, and a value of the wrong type is an error.  A group
may also be written as an array of its fields in their order.
-/

namespace ProblemBoard

open Toml (Value)

namespace Toml

/-- A field of a group: its name, and how its value is put into the group. -/
structure Field (σ : Type) where
  name : String
  /-- Puts a value into the group. -/
  read : σ → Value → Option σ

/-- The fields of a group written as a table.  Numbers under unknown keys must be in
range. -/
def readMembers {σ : Type} (fields : List (Field σ)) (group : σ) : List (String × Value) →
    Option σ
  | [] => some group
  | (key, v) :: rest =>
      match fields.find? (·.name = key) with
      | some f => do readMembers fields (← f.read group v) rest
      | none => if v.inRange then readMembers fields group rest else none

/-- The fields of a group written as an array; what is left over is not looked at. -/
def readItems {σ : Type} (group : σ) : List (Field σ) → List Value → Option σ
  | f :: fs, v :: vs => do readItems (← f.read group v) fs vs
  | _, _ => some group

/-- A group of settings over its defaults.  A date has no fields and leaves them all. -/
def readGroup {σ : Type} (fields : List (Field σ)) (defaults : σ) : Value → Option σ
  | .table _ members => readMembers fields defaults members
  | .array items => readItems defaults fields items
  | .tables newestFirst => readItems defaults fields newestFirst.reverse
  | .moment => some defaults
  | _ => none

def readBool : Value → Option Bool
  | .bool b => some b
  | _ => none

def readString : Value → Option String
  | .string s => some s
  | _ => none

def readStrings : Value → Option (List String)
  | .array items => items.mapM readString
  | _ => none

def readNat : Value → Option Nat
  | .integer n => if 0 ≤ n && n ≤ Text.maxWord64 then some n.toNat else none
  | _ => none

def readPath (v : Value) : Option Path := (readString v).map Path.mk

/-- Whether a value holds nothing. -/
def isEmptyGroup : Value → Bool
  | .array [] => true
  | .table _ [] => true
  | _ => false

/-- A choice by name.  The name may also be the only key of a table, with nothing in it. -/
def readChoice {α : Type} (ofName? : String → Option α) : Value → Option α
  | .string s => ofName? s
  | .table _ [(key, v)] => if isEmptyGroup v then ofName? key else none
  | _ => none

end Toml

namespace Settings

/-- The fields of the filters, in their order. -/
def filterFields : List (Toml.Field FilterSettings) :=
  [⟨"show_errors", fun s v => return { s with showErrors := ← Toml.readBool v }⟩,
   ⟨"show_warnings", fun s v => return { s with showWarnings := ← Toml.readBool v }⟩,
   ⟨"file_types", fun s v => return { s with fileTypes := ← Toml.readStrings v }⟩,
   ⟨"exclude", fun s v => return { s with exclude := ← Toml.readStrings v }⟩]

def producerFields : List (Toml.Field ProducerSettings) :=
  [⟨"type_check", fun s v => return { s with typeCheck := ← Toml.readBool v }⟩,
   ⟨"lint", fun s v => return { s with lint := ← Toml.readBool v }⟩,
   ⟨"type_check_config", fun s v => return { s with typeCheckConfig := some (← Toml.readPath v) }⟩,
   ⟨"lint_config", fun s v => return { s with lintConfig := some (← Toml.readPath v) }⟩]

def viewFields : List (Toml.Field ViewSettings) :=
  [⟨"group_by", fun s v => return { s with groupBy := ← Toml.readChoice GroupMode.ofName? v }⟩,
   ⟨"scan_mode", fun s v => return { s with scanMode := ← Toml.readChoice ScanMode.ofName? v }⟩]

def refreshFields : List (Toml.Field Timings) :=
  [⟨"debounce_ms", fun s v => return { s with debounce := ← Toml.readNat v }⟩,
   ⟨"follow_up_delay_ms", fun s v => return { s with followUp := ← Toml.readNat v }⟩]

def groupFields : List (Toml.Field Settings) :=
  [⟨"filters", fun s v => return { s with
      filters := ← Toml.readGroup filterFields .default v }⟩,
   ⟨"producers", fun s v => return { s with
      producers := ← Toml.readGroup producerFields .default v }⟩,
   ⟨"view", fun s v => return { s with view := ← Toml.readGroup viewFields .default v }⟩,
   ⟨"refresh", fun s v => return { s with refresh := ← Toml.readGroup refreshFields .default v }⟩]

/-- The settings that a document holds. -/
def ofText? (text : String) : Option Settings := do
  Toml.readMembers groupFields .default (← Toml.Reader.document text)

end Settings

end ProblemBoard
