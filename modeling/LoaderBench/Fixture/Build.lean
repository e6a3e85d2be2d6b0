import LoaderBench.Fixture.Identity
import LoaderBench.Loader.Machine

/-!
# Building and laying out the fixture libraries

The exporting library takes its variant from a setting of the build environment. Once built it can be
loaded by path if its file is there and the library it imports stands beside it.
-/

namespace LoaderBench.Fixture

open LoaderBench.Text LoaderBench.Loader

/-- The variant that a build takes from its setting. A setting that is no text counts as none. -/
def variantOfSetting (setting : Option Bytes) : Except NumeralError Int64 :=
  parseVariant ((setting.bind Utf8.decode?).getD "")

inductive Built where
  | exporter (variant : Int64)
  | imported
  deriving DecidableEq

/-- The symbols of a built library, with the numbers that their functions return. -/
def Built.symbols : Built → List (Bytes × Option Int32)
  | .exporter variant => [(Utf8.encode idSymbol, some (idOf variant))]
  | .imported => [(Utf8.encode importSymbol, some importedId)]

def Built.image (built : Built) (name : Bytes) : Image :=
  ⟨name, built.symbols, ⟨none, some (Utf8.encode "undefined symbol")⟩, 0, .silent⟩

def build (setting : Option Bytes) : Except NumeralError Built :=
  (variantOfSetting setting).map .exporter

/-- A directory of fixture libraries: what the file of the exporting library really holds, and whether
the imported library stands beside it. -/
structure Layout where
  main : Option Built
  importedBeside : Bool

/-- The library that can be loaded from a layout. An exporter without its import cannot. -/
def Layout.loadable (layout : Layout) : Option Built :=
  match layout.main with
  | some (.exporter variant) => if layout.importedBeside then some (.exporter variant) else none
  | other => other

/-- The loader of a program that runs beside a layout, whose main file has the given path. -/
def Layout.machine (layout : Layout) (path : Bytes) : Machine :=
  Machine.initial (layout.loadable.toList.map (·.image path))
    ⟨some 2, some (Utf8.encode "cannot open shared object file")⟩ 0 none

end LoaderBench.Fixture
