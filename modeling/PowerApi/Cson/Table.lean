import Mathlib.Tactic.Common

namespace cson

/-- The classes of characters, `enum classes`. -/
inductive Class where
  | SPACE | WHITE | LCURB | RCURB | LSQRB | RSQRB | COLON | COMMA | QUOTE | BACKS | SLASH | PLUS | MINUS | POINT
  | ZERO | DIGIT | LOW_A | LOW_B | LOW_C | LOW_D | LOW_E | LOW_F | LOW_L | LOW_N | LOW_R | LOW_S | LOW_T | LOW_U
  | ABCDF | E | ETC | STAR
  deriving DecidableEq, Repr

/-- `enum states` -/
inductive State where
  | GO | OK | OB | KE | CO | VA | AR | ST | ES | U1 | U2 | U3 | U4 | MI | ZE | IT | FR | E1 | E2 | E3
  | T1 | T2 | T3 | F1 | F2 | F3 | F4 | N1 | N2 | N3 | C1 | C2 | C3 | FX | D1 | D2
  deriving DecidableEq, Repr

/-- `enum actions`, and the actions that have only a number: `EO` for the end of an empty object (-9),
`OE` (-8), `AE` (-7), `OA` (-6) and `AA` (-5) for the four brackets, `SE` for the end of a string (-4),
`CM` (-3) and `CL` (-2) for comma and colon. -/
inductive Action where
  | CB | CE | FA | TR | NU | DE | DF | SB | MX | ZX | IX | EX | UC
  | EO | OE | AE | OA | AA | SE | CM | CL
  deriving DecidableEq, Repr

/-- An entry of the transition table. -/
inductive Cell where
  | error
  | to (state : State)
  | act (action : Action)
  deriving DecidableEq, Repr

instance : Coe State Cell := ⟨.to⟩

instance : Coe Action Cell := ⟨.act⟩

/-- The universal error code, `__` in the source. -/
abbrev XX : Cell := .error

section Tables

open cson.Class cson.State cson.Action

def ascii_class : List (Option Class) := List.flatten [
  [none, none, none, none, none, none, none, none],
  [none, WHITE, WHITE, none, none, WHITE, none, none],
  [none, none, none, none, none, none, none, none],
  [none, none, none, none, none, none, none, none],
  [SPACE, ETC, QUOTE, ETC, ETC, ETC, ETC, ETC],
  [ETC, ETC, STAR, PLUS, COMMA, MINUS, POINT, SLASH],
  [ZERO, DIGIT, DIGIT, DIGIT, DIGIT, DIGIT, DIGIT, DIGIT],
  [DIGIT, DIGIT, COLON, ETC, ETC, ETC, ETC, ETC],
  [ETC, ABCDF, ABCDF, ABCDF, ABCDF, E, ABCDF, ETC],
  [ETC, ETC, ETC, ETC, ETC, ETC, ETC, ETC],
  [ETC, ETC, ETC, ETC, ETC, ETC, ETC, ETC],
  [ETC, ETC, ETC, LSQRB, BACKS, RSQRB, ETC, ETC],
  [ETC, LOW_A, LOW_B, LOW_C, LOW_D, LOW_E, LOW_F, ETC],
  [ETC, ETC, ETC, ETC, LOW_L, ETC, LOW_N, ETC],
  [ETC, ETC, LOW_R, LOW_S, LOW_T, LOW_U, ETC, ETC],
  [ETC, ETC, ETC, LCURB, ETC, RCURB, ETC, ETC]]

/-- `state_transition_table`, a row for each state and in it a cell for each class. -/
def transitions : State → List Cell
  | .GO => [GO, GO, OA, XX, AA, XX, XX, XX, XX, XX, CB, XX, XX, XX, XX, XX, XX, XX, XX, XX, XX, XX, XX, XX, XX, XX, XX, XX, XX, XX, XX, XX]
  | .OK => [OK, OK, XX, OE, XX, AE, XX, CM, XX, XX, CB, XX, XX, XX, XX, XX, XX, XX, XX, XX, XX, XX, XX, XX, XX, XX, XX, XX, XX, XX, XX, XX]
  | .OB => [OB, OB, XX, EO, XX, XX, XX, XX, SB, XX, CB, XX, XX, XX, XX, XX, XX, XX, XX, XX, XX, XX, XX, XX, XX, XX, XX, XX, XX, XX, XX, XX]
  | .KE => [KE, KE, XX, XX, XX, XX, XX, XX, SB, XX, CB, XX, XX, XX, XX, XX, XX, XX, XX, XX, XX, XX, XX, XX, XX, XX, XX, XX, XX, XX, XX, XX]
  | .CO => [CO, CO, XX, XX, XX, XX, CL, XX, XX, XX, CB, XX, XX, XX, XX, XX, XX, XX, XX, XX, XX, XX, XX, XX, XX, XX, XX, XX, XX, XX, XX, XX]
  | .VA => [VA, VA, OA, XX, AA, XX, XX, XX, SB, XX, CB, XX, MX, XX, ZX, IX, XX, XX, XX, XX, XX, FA, XX, NU, XX, XX, TR, XX, XX, XX, XX, XX]
  | .AR => [AR, AR, OA, XX, AA, AE, XX, XX, SB, XX, CB, XX, MX, XX, ZX, IX, XX, XX, XX, XX, XX, FA, XX, NU, XX, XX, TR, XX, XX, XX, XX, XX]
  | .ST => [ST, XX, ST, ST, ST, ST, ST, ST, SE, EX, ST, ST, ST, ST, ST, ST, ST, ST, ST, ST, ST, ST, ST, ST, ST, ST, ST, ST, ST, ST, ST, ST]
  | .ES => [XX, XX, XX, XX, XX, XX, XX, XX, ST, ST, ST, XX, XX, XX, XX, XX, XX, ST, XX, XX, XX, ST, XX, ST, ST, XX, ST, U1, XX, XX, XX, XX]
  | .U1 => [XX, XX, XX, XX, XX, XX, XX, XX, XX, XX, XX, XX, XX, XX, U2, U2, U2, U2, U2, U2, U2, U2, XX, XX, XX, XX, XX, XX, U2, U2, XX, XX]
  | .U2 => [XX, XX, XX, XX, XX, XX, XX, XX, XX, XX, XX, XX, XX, XX, U3, U3, U3, U3, U3, U3, U3, U3, XX, XX, XX, XX, XX, XX, U3, U3, XX, XX]
  | .U3 => [XX, XX, XX, XX, XX, XX, XX, XX, XX, XX, XX, XX, XX, XX, U4, U4, U4, U4, U4, U4, U4, U4, XX, XX, XX, XX, XX, XX, U4, U4, XX, XX]
  | .U4 => [XX, XX, XX, XX, XX, XX, XX, XX, XX, XX, XX, XX, XX, XX, UC, UC, UC, UC, UC, UC, UC, UC, XX, XX, XX, XX, XX, XX, UC, UC, XX, XX]
  | .MI => [XX, XX, XX, XX, XX, XX, XX, XX, XX, XX, XX, XX, XX, XX, ZE, IT, XX, XX, XX, XX, XX, XX, XX, XX, XX, XX, XX, XX, XX, XX, XX, XX]
  | .ZE => [OK, OK, XX, OE, XX, AE, XX, CM, XX, XX, CB, XX, XX, DF, XX, XX, XX, XX, XX, XX, XX, XX, XX, XX, XX, XX, XX, XX, XX, XX, XX, XX]
  | .IT => [OK, OK, XX, OE, XX, AE, XX, CM, XX, XX, CB, XX, XX, DF, IT, IT, XX, XX, XX, XX, DE, XX, XX, XX, XX, XX, XX, XX, XX, DE, XX, XX]
  | .FR => [OK, OK, XX, OE, XX, AE, XX, CM, XX, XX, CB, XX, XX, XX, FR, FR, XX, XX, XX, XX, E1, XX, XX, XX, XX, XX, XX, XX, XX, E1, XX, XX]
  | .E1 => [XX, XX, XX, XX, XX, XX, XX, XX, XX, XX, XX, E2, E2, XX, E3, E3, XX, XX, XX, XX, XX, XX, XX, XX, XX, XX, XX, XX, XX, XX, XX, XX]
  | .E2 => [XX, XX, XX, XX, XX, XX, XX, XX, XX, XX, XX, XX, XX, XX, E3, E3, XX, XX, XX, XX, XX, XX, XX, XX, XX, XX, XX, XX, XX, XX, XX, XX]
  | .E3 => [OK, OK, XX, OE, XX, AE, XX, CM, XX, XX, XX, XX, XX, XX, E3, E3, XX, XX, XX, XX, XX, XX, XX, XX, XX, XX, XX, XX, XX, XX, XX, XX]
  | .T1 => [XX, XX, XX, XX, XX, XX, XX, XX, XX, XX, XX, XX, XX, XX, XX, XX, XX, XX, XX, XX, XX, XX, XX, XX, T2, XX, XX, XX, XX, XX, XX, XX]
  | .T2 => [XX, XX, XX, XX, XX, XX, XX, XX, XX, XX, XX, XX, XX, XX, XX, XX, XX, XX, XX, XX, XX, XX, XX, XX, XX, XX, XX, T3, XX, XX, XX, XX]
  | .T3 => [XX, XX, XX, XX, XX, XX, XX, XX, XX, XX, CB, XX, XX, XX, XX, XX, XX, XX, XX, XX, OK, XX, XX, XX, XX, XX, XX, XX, XX, XX, XX, XX]
  | .F1 => [XX, XX, XX, XX, XX, XX, XX, XX, XX, XX, XX, XX, XX, XX, XX, XX, F2, XX, XX, XX, XX, XX, XX, XX, XX, XX, XX, XX, XX, XX, XX, XX]
  | .F2 => [XX, XX, XX, XX, XX, XX, XX, XX, XX, XX, XX, XX, XX, XX, XX, XX, XX, XX, XX, XX, XX, XX, F3, XX, XX, XX, XX, XX, XX, XX, XX, XX]
  | .F3 => [XX, XX, XX, XX, XX, XX, XX, XX, XX, XX, XX, XX, XX, XX, XX, XX, XX, XX, XX, XX, XX, XX, XX, XX, XX, F4, XX, XX, XX, XX, XX, XX]
  | .F4 => [XX, XX, XX, XX, XX, XX, XX, XX, XX, XX, CB, XX, XX, XX, XX, XX, XX, XX, XX, XX, OK, XX, XX, XX, XX, XX, XX, XX, XX, XX, XX, XX]
  | .N1 => [XX, XX, XX, XX, XX, XX, XX, XX, XX, XX, XX, XX, XX, XX, XX, XX, XX, XX, XX, XX, XX, XX, XX, XX, XX, XX, XX, N2, XX, XX, XX, XX]
  | .N2 => [XX, XX, XX, XX, XX, XX, XX, XX, XX, XX, XX, XX, XX, XX, XX, XX, XX, XX, XX, XX, XX, XX, N3, XX, XX, XX, XX, XX, XX, XX, XX, XX]
  | .N3 => [XX, XX, XX, XX, XX, XX, XX, XX, XX, XX, CB, XX, XX, XX, XX, XX, XX, XX, XX, XX, XX, XX, OK, XX, XX, XX, XX, XX, XX, XX, XX, XX]
  | .C1 => [XX, XX, XX, XX, XX, XX, XX, XX, XX, XX, XX, XX, XX, XX, XX, XX, XX, XX, XX, XX, XX, XX, XX, XX, XX, XX, XX, XX, XX, XX, XX, C2]
  | .C2 => [C2, C2, C2, C2, C2, C2, C2, C2, C2, C2, C2, C2, C2, C2, C2, C2, C2, C2, C2, C2, C2, C2, C2, C2, C2, C2, C2, C2, C2, C2, C2, C3]
  | .C3 => [C2, C2, C2, C2, C2, C2, C2, C2, C2, C2, CE, C2, C2, C2, C2, C2, C2, C2, C2, C2, C2, C2, C2, C2, C2, C2, C2, C2, C2, C2, C2, C3]
  | .FX => [OK, OK, XX, OE, XX, AE, XX, CM, XX, XX, XX, XX, XX, XX, FR, FR, XX, XX, XX, XX, E1, XX, XX, XX, XX, XX, XX, XX, XX, E1, XX, XX]
  | .D1 => [XX, XX, XX, XX, XX, XX, XX, XX, XX, D2, XX, XX, XX, XX, XX, XX, XX, XX, XX, XX, XX, XX, XX, XX, XX, XX, XX, XX, XX, XX, XX, XX]
  | .D2 => [XX, XX, XX, XX, XX, XX, XX, XX, XX, XX, XX, XX, XX, XX, XX, XX, XX, XX, XX, XX, XX, XX, XX, XX, XX, XX, XX, U1, XX, XX, XX, XX]

end Tables

/-- The class of a byte. Every byte from 128 on is of the class `ETC`. -/
def char_class (c : UInt8) : Option Class :=
  if 128 ≤ c then some .ETC else (ascii_class[c.toNat]?).join

/-- The entry of the table for a state and a class. -/
def cell (state : State) (cls : Class) : Cell := (transitions state).getD cls.ctorIdx XX

end cson
