import PowerApi.Pwrcmd.Hierarchy
import PowerApi.Pwrcmd.Output

open Relation cson

namespace pwrapi.pwrcmd

open Library

section Print

variable {D : Type}

end Print

section Sorter

variable {list : List (List Char)} {sorter sorter' : Sorter}

end Sorter

section Names

variable {lib : Library} {ctx obj levels : Nat}

end Names

end pwrapi.pwrcmd
