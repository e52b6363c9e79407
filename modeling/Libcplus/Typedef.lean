import Mathlib.Algebra.Group.Nat.Defs
import Mathlib.Data.Int.Notation

-- cplus_typedef.h: what the calls answer, and the timeout that never ends.
namespace Libcplus.Typedef

def CPLUS_FAIL : Int := -1
def CPLUS_SUCCESS : Int := 0
def CPLUS_INFINITE_TIMEOUT : Nat := 2^32 - 1

end Libcplus.Typedef
