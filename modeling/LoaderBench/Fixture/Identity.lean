import LoaderBench.Text.Blank
import LoaderBench.Text.Decimal
import LoaderBench.Text.Numeral

/-!
# The fixture libraries

Two small libraries exist to be loaded: `lwtest_a` exports a function that returns an identity number,
chosen when the library is built by its *variant*; it imports a function of `lwtest_b`, so that loading
the one needs the other. This module names symbols, numbers and files.
-/

namespace LoaderBench.Fixture

open LoaderBench.Text

/-! ### Symbols -/

/-- The function that `lwtest_a` exports. -/
def idSymbol : String := "lwtest_fixture_id"

/-- The function that `lwtest_b` exports and `lwtest_a` imports. -/
def importSymbol : String := "lwtest_b_force_import"

/-! ### Identity numbers -/

/-- The number of variant 1. -/
def firstId : Int32 := 1001

/-- The number of variant 2. -/
def secondId : Int32 := 1002

/-- The number of every other variant. -/
def fallbackId : Int32 := 1999

def importedId : Int32 := 2001

def idOf (variant : Int64) : Int32 :=
  if variant = 1 then firstId else if variant = 2 then secondId else fallbackId

/-! ### Variants -/

/-- The variant of a build that asks for none. -/
def defaultVariant : Int64 := 1

/-- The variant that a text asks for. White space around it does not count, and an empty text asks for
the default. -/
def parseVariant (raw : String) : Except NumeralError Int64 :=
  match trim raw.toList with
  | [] => .ok defaultVariant
  | cs => (readNumeral Int64.minValue.toInt Int64.maxValue.toInt cs).map Int64.ofInt

/-! ### Names of files -/

/-- The name of the exporting library, without what the platform adds. -/
def exporterStem : String := "lwtest_a"

def importedStem : String := "lwtest_b"

def pathHostStem : String := "host_dynamic_loadlibrary_fullpath"

def nameHostStem : String := "host_dynamic_loadlibrary_name"

def libraryFile (stem : String) : String := "lib" ++ stem ++ ".so"

def executableFile (stem : String) : String := stem

/-- The name of the copy of the exporting library that is kept for a variant. -/
def variantStem (variant : Int64) : String := exporterStem ++ "_v" ++ signed variant.toInt

end LoaderBench.Fixture
