import Assay.Registry.Basic

/-!
# Stores of registries

Registries are objects that live side by side, and each holds a dictionary of entries. A step changes
the dictionary of one registry or makes a registry with a new dictionary; a step that fails may leave
a dictionary behind that no registry holds. The first registry is the one that the whole program
shares.
-/

namespace Assay.Registry

variable {σ : Type}

/-- Dictionaries by address, and for each registry the address of the dictionary that it holds. -/
structure Store (σ : Type) where
  dictionaries : List (List (String × Entry σ))
  holders : List Nat

/-- What is laid over a copy: the entries of a registry, or entries that are given. -/
inductive Operand (σ : Type) where
  | registry (o : Nat)
  | entries (es : List (String × Entry σ))

/-- A step on the registries of a store, which are told by their numbers. -/
inductive Step (σ : Type) where
  /-- Makes a registry of entries. -/
  | construct (es : List (String × Entry σ))
  /-- Makes a registry of the entries of another. -/
  | copy (o : Nat)
  /-- Makes a registry of the entries of another with an operand laid over them. -/
  | merge (o : Nat) (cover : Operand σ)
  /-- Registers an entry under a new name. -/
  | register (o : Nat) (name : String) (e : Entry σ)
  /-- Puts an entry under a name, over what is there. -/
  | update (o : Nat) (name : String) (e : Entry σ)
  /-- Registers an entry in the shared registry, under a given name or its own. -/
  | announce (given : String) (own : Except String String) (e : Entry σ)
  /-- Empties the shared registry. -/
  | clear

namespace Store

/-- The shared registry alone, with nothing in it. -/
def initial : Store σ := ⟨[[]], [0]⟩

/-- A shared registry alone. -/
def sharing (r : Registry σ) : Store σ := ⟨[r.entries], [0]⟩

/-- The number of registries. -/
def count (st : Store σ) : Nat := st.holders.length

/-- What stands in the dictionary at an address. -/
def dictionary (a : Nat) (st : Store σ) : Registry σ := ⟨st.dictionaries[a]?.getD []⟩

/-- Writes a dictionary at its address. -/
def write (a : Nat) (r : Registry σ) (st : Store σ) : Store σ :=
  { st with dictionaries := st.dictionaries.set a r.entries }

/-- What a registry holds. -/
def view (o : Nat) (st : Store σ) : Registry σ :=
  match st.holders[o]? with
  | some a => st.dictionary a
  | none => .empty

/-- The entries that an operand stands for, where registries hold the dictionaries at these
addresses. -/
def entriesOf (holders : List Nat) (st : Store σ) : Operand σ → List (String × Entry σ)
  | .registry o =>
    match holders[o]? with
    | some a => (st.dictionary a).entries
    | none => []
  | .entries es => es

/-- Works on the dictionary of a registry. -/
def onRegistry (o : Nat) (work : Nat → Store σ → Store σ × Option Fault) (st : Store σ) :
    Store σ × Option Fault :=
  match st.holders[o]? with
  | some a => work a st
  | none => (st, none)

/-- Writes what a computation makes of a dictionary, unless it fails. -/
def rewrite (f : Registry σ → Except Fault (Registry σ)) (a : Nat) (st : Store σ) :
    Store σ × Option Fault :=
  match f (st.dictionary a) with
  | .error fault => (st, some fault)
  | .ok r => (st.write a r, none)

/-- Registers entries in a dictionary one after the other, up to the first that fails. -/
def registerAllAt (a : Nat) : List (String × Entry σ) → Store σ → Store σ × Option Fault
  | [], st => (st, none)
  | (name, e) :: rest, st =>
    match rewrite (Registry.register name e) a st with
    | (st', some fault) => (st', some fault)
    | (st', none) => registerAllAt a rest st'

/-- Puts entries into a dictionary one after the other. -/
def putAllAt (a : Nat) (es : List (String × Entry σ)) (st : Store σ) : Store σ :=
  es.foldl (fun st e => st.write a ((st.dictionary a).put e.1 e.2)) st

/-- Makes a registry of entries: it holds a new dictionary, in which they are registered. Only when
that is done is there a registry. -/
def construct (es : List (String × Entry σ)) (st : Store σ) : Store σ × Option Fault :=
  let a := st.dictionaries.length
  match registerAllAt a es { st with dictionaries := st.dictionaries ++ [[]] } with
  | (st', some fault) => (st', some fault)
  | (st', none) => ({ st' with holders := st'.holders ++ [a] }, none)

/-- Makes a copy of a registry and lays an operand over it, which is one that was there before. -/
def merge (o : Nat) (cover : Operand σ) (st : Store σ) : Store σ × Option Fault :=
  match construct (st.view o).entries st with
  | (st', some fault) => (st', some fault)
  | (st', none) =>
    st'.onRegistry st.count fun a st'' => (putAllAt a (st''.entriesOf st.holders cover) st'', none)

/-- Takes a step. A registry that is made gets the next number. -/
def perform (st : Store σ) : Step σ → Store σ × Option Fault
  | .construct es => st.construct es
  | .copy o => st.construct (st.view o).entries
  | .merge o cover => st.merge o cover
  | .register o name e => st.onRegistry o (rewrite (Registry.register name e))
  | .update o name e => st.onRegistry o (rewrite fun r => .ok (r.put name e))
  | .announce given own e => st.onRegistry 0 (rewrite (Registry.announce given own e))
  | .clear => st.onRegistry 0 (rewrite fun _ => .ok .empty)

/-- Takes steps in order; one that fails is passed over. -/
def performAll (st : Store σ) (steps : List (Step σ)) : Store σ :=
  steps.foldl (fun st step => (st.perform step).1) st

end Store

end Assay.Registry
