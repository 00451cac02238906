import FeatureFlags.Rollout.SipHash

/-!
# Rollouts

A flag may be on for a share of its contexts.  Each context falls into one of a hundred buckets, by
a hash of the flag's key and of what identifies the context, and the flag is on for the buckets
below the percentage.

* `Rollout.bucket`     the bucket, always below a hundred;
* `Rollout.includes`   whether a percentage reaches it; none does at 0 and below, all at 100 and
                       above.
-/

namespace FeatureFlags.Rollout

def bucketCount : Nat := 100

/-- the bytes that are hashed: the text, and one byte that occurs in no text -/
def message (flagKey identifier : String) : List UInt8 :=
  (flagKey ++ ":" ++ identifier).toUTF8.toList ++ [0xff]

def bucket (flagKey identifier : String) : Nat :=
  (SipHash.hash (message flagKey identifier)).toNat % bucketCount

theorem bucket_lt (flagKey identifier : String) : bucket flagKey identifier < bucketCount :=
  Nat.mod_lt _ (by decide)

def includes (percentage : Int32) (flagKey identifier : String) : Bool :=
  if percentage ≤ 0 then false
  else if 100 ≤ percentage then true
  else (bucket flagKey identifier : Int) < percentage.toInt

end FeatureFlags.Rollout
