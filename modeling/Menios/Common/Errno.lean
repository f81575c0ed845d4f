import Mathlib

/-!
# Error numbers

The error numbers of `include/sys/errno.h` that the modelled functions return. A function of
the kernel returns them negated.
-/

namespace Menios
/-- `EINTR`. -/
def eintr : ℤ := 4

/-- `EIO`. -/
def eio : ℤ := 5

/-- `EBADF`. -/
def ebadf : ℤ := 9

/-- `EFAULT`. -/
def efault : ℤ := 14

/-- `EINVAL`. -/
def einval : ℤ := 22

/-- `ENOSYS`. -/
def enosys : ℤ := 38
end Menios
