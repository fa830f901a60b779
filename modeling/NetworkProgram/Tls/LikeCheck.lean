import NetworkProgram.Libc.Strings

set_option autoImplicit false

/-!
# TLS: `like_check_ignorecase`

The wildcard comparison of `ssl-client.c` and `ssl-server.c`, which are the same
here.  `*` in the pattern stands for any sequence, `?` for any byte, and letters
are compared without case.  The result is `none` where the code would read the
byte behind the terminator of `str_in`: its `*` loop steps over the terminator
when it is entered at the end of the string.
-/

namespace NetworkProgram.Tls

open NetworkProgram.Libc

abbrev star : UInt8 := 42
abbrev question : UInt8 := 63

/-- The loop behind a `*`: try the rest of the pattern at `str_in`, then at each
later byte, but not at the terminator. -/
def starLoop (rest : Bytes → Option Bool) : Bytes → Option Bool
  | [] =>
      match rest [] with
      | some false => none
      | result => result
  | c :: str =>
      match rest (c :: str) with
      | some false => if str = [] then some false else starLoop rest str
      | result => result

/-- The comparison of two strings, on the bytes before their terminators. -/
def likeStrings : Bytes → Bytes → Option Bool
  | str, [] => some str.isEmpty
  | str, c :: check =>
      if c = star then
        if check = [] then some true else starLoop (fun str => likeStrings str check) str
      else
        match str with
        | [] => some false
        | d :: str =>
            if c = question ∨ toupper d = toupper c then likeStrings str check else some false

/-- `like_check_ignorecase(str_in, check_in)`. -/
def likeCheckIgnorecase (strIn checkIn : Bytes) : Option Bool :=
  likeStrings (cstr strIn) (cstr checkIn)

example : likeCheckIgnorecase (ascii ['W', 'w', 'w', '.', 'a', '.', 'b'])
    (ascii ['*', '.', 'A', '.', '?']) = some true := by decide

end NetworkProgram.Tls
