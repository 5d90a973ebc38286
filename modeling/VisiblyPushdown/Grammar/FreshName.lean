/-!
# Fresh names

A name that is taken is tried again with a prime behind it. With as many primes to spare as there
are taken names, one of the names tried is free.
-/

namespace VisiblyPushdown

/-- The first of `name`, `name'`, `name''`, … that is not taken, with at most `primes` primes. -/
def firstFree (taken : String → Bool) : (primes : Nat) → (name : String) → String
  | 0, name => name
  | primes + 1, name => if taken name then firstFree taken primes (name ++ "'") else name

end VisiblyPushdown
