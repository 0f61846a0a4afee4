import Teller.Json.Text

/-! Passing over a value that nobody asked for. Its grammar is checked, its depth and the coding of
its strings are not. -/
namespace Teller.Json
open Decimal (isDigit)

inductive Frame where
  | list
  | object
  deriving DecidableEq, Repr

def skipExponent (text : List UInt8) : Except Failure (List UInt8) :=
  let rest := match text.tail with
    | 43 :: rest => rest
    | 45 :: rest => rest
    | rest => rest
  match rest with
  | [] => stop .number []
  | b :: rest => if isDigit b then .ok (rest.dropWhile isDigit) else stop .number rest

def skipFraction (text : List UInt8) : Except Failure (List UInt8) :=
  if startsWithDigit text.tail then
    let rest := text.tail.dropWhile isDigit
    if startsWithE rest then skipExponent rest else .ok rest
  else stopBehind .number text.tail

def skipNumber (text : List UInt8) : Except Failure (List UInt8) :=
  match text with
  | [] => stop .number []
  | b :: rest =>
      if b = 48 ∧ startsWithDigit rest then stopBehind .number rest
      else if isDigit b then
        let rest := if b = 48 then rest else rest.dropWhile isDigit
        match rest with
        | 46 :: _ => skipFraction rest
        | _ => if startsWithE rest then skipExponent rest else .ok rest
      else stop .number rest

def skipEscape : List UInt8 → Except Failure (List UInt8)
  | [] => stop .endInString []
  | 117 :: rest => (readHex rest).map (·.2)
  | b :: rest =>
      if [34, 92, 47, 98, 102, 110, 114, 116].contains b then .ok rest else stop .escape rest

def skipQuoted : (steps : List UInt8) → List UInt8 → Except Failure (List UInt8)
  | _, [] => stop .endInString []
  | [], text => stop .endInString text
  | _ :: steps, b :: rest =>
      if b = 34 then .ok rest
      else if b = 92 then do skipQuoted steps (← skipEscape rest)
      else if b < 32 then stop .control (b :: rest)
      else skipQuoted steps rest

def Frame.ended : Frame → Cause
  | list => .endInList
  | object => .endInObject

def Frame.commaOrEnd : Frame → Cause
  | list => .listCommaOrEnd
  | object => .objectCommaOrEnd

def Frame.close : Frame → UInt8
  | list => 93
  | object => 125

def skipKey (text : List UInt8) : Except Failure (List UInt8) := do
  let text := skipSpace text
  match text with
  | [] => stopBehind .endInObject []
  | 34 :: rest =>
      let rest := skipSpace (← skipQuoted rest rest)
      match rest with
      | 58 :: rest => return rest
      | [] => stopBehind .endInObject []
      | _ => stopBehind .colon rest
  | _ => stopBehind .keyText text

inductive Spot where
  | before
  | behind
  deriving DecidableEq

def skipFrom : (steps : List UInt8) → Spot → List Frame → List UInt8 → Except Failure (List UInt8)
  | [], _, _, text => stopBehind .endInValue text
  | _ :: _, .behind, [], text => .ok text
  | _ :: steps, .behind, frame :: frames, text =>
      let text := skipSpace text
      match text with
      | [] => stopBehind frame.ended []
      | b :: rest =>
          if b = 44 then do
            let rest ← if frame = .object then skipKey rest else pure rest
            skipFrom steps .before (frame :: frames) rest
          else if b = frame.close then skipFrom steps .behind frames rest
          else stopBehind frame.commaOrEnd text
  | _ :: steps, .before, frames, text =>
      let text := skipSpace text
      match text with
      | [] => stopBehind .endInValue []
      | b :: rest =>
          let opened (frame : Frame) : Except Failure (List UInt8) :=
            let inner := skipSpace rest
            match inner with
            | [] => stopBehind frame.ended []
            | c :: behind =>
                if c = frame.close then skipFrom steps .behind frames behind
                else do
                  let inner ← if frame = .object then skipKey inner else pure inner
                  skipFrom steps .before (frame :: frames) inner
          let passed (r : Except Failure (List UInt8)) : Except Failure (List UInt8) := do
            skipFrom steps .behind frames (← r)
          if b = 110 then passed ((readWord [117, 108, 108] rest).map (·.2))
          else if b = 116 then passed ((readWord [114, 117, 101] rest).map (·.2))
          else if b = 102 then passed ((readWord [97, 108, 115, 101] rest).map (·.2))
          else if b = 45 then passed (skipNumber rest)
          else if isDigit b then passed (skipNumber text)
          else if b = 34 then passed (skipQuoted rest rest)
          else if b = 91 then opened .list
          else if b = 123 then opened .object
          else stopBehind .value text

def skipValue (text : List UInt8) : Except Failure (List UInt8) :=
  skipFrom (0 :: text) .before [] text

end Teller.Json
