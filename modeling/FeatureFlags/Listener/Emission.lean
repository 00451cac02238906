import FeatureFlags.Listener

/-!
# Emissions

A listener may do anything while it is called: add listeners to the set it belongs to, remove them,
and begin another emission, whose calls are over before it goes on.

* `Conduct σ ρ`          what a listener does, step by step; a step may depend on the answers to the
                         steps before it;
* `Stage σ ρ`            a set of listeners, and what the listeners know besides;
* `Deed ρ`, `Calling ρ`  what was done, as a tree: an emission has its calls below it, and a call
                         what its listener did;
* `emission`             one emission; `react` is the conduct of each listener;
* `Moment ρ`, `moments`  the tree in the order of time.
-/

namespace FeatureFlags

/-! ## conduct -/

/-- What somebody does with a set of listeners of roles `ρ`.  Everybody can read and write the
common knowledge `σ`. -/
inductive Conduct (σ ρ : Type) where
  | done
  | add (topic : Topic) (role : ρ) (next : ListenerId → Conduct σ ρ)
  | remove (id : ListenerId) (next : Bool → Conduct σ ρ)
  | count (topic : Topic) (next : Nat → Conduct σ ρ)
  | clear (next : Conduct σ ρ)
  | emit (changes : List Change) (next : Conduct σ ρ)
  | look (next : σ → Conduct σ ρ)
  | note (known : σ) (next : Conduct σ ρ)

structure Stage (σ ρ : Type) where
  set : ListenerSet ρ
  known : σ

mutual

inductive Deed (ρ : Type) where
  | added (l : Listener ρ)
  | removed (id : ListenerId) (was : Bool)
  | counted (topic : Topic) (n : Nat)
  | cleared
  | emitted (changes : List Change) (calls : List (Calling ρ))

/-- One call of a listener, and what it did until it returned. -/
inductive Calling (ρ : Type) where
  | node (l : Listener ρ) (changes : List Change) (during : List (Deed ρ))

end

variable {σ ρ : Type}

/-- the call itself -/
def Calling.own : Calling ρ → Listener ρ × List Change
  | .node l changes _ => (l, changes)

def Deed.calls : Deed ρ → List (Calling ρ)
  | .emitted _ calls => calls
  | _ => []

namespace Conduct

/-- Does one step after the other; `emitting` is what an emission does. -/
def run (emitting : Stage σ ρ → List Change → Option (Stage σ ρ × List (Calling ρ))) :
    Conduct σ ρ → Stage σ ρ → Option (Stage σ ρ × List (Deed ρ))
  | done, s => some (s, [])
  | add topic role next, s => do
    let r := s.set.add topic role
    let rest ← (next r.2).run emitting { s with set := r.1 }
    some (rest.1, .added ⟨r.2, topic, role⟩ :: rest.2)
  | remove id next, s => do
    let was := s.set.removes id
    let rest ← (next was).run emitting { s with set := s.set.remove id }
    some (rest.1, .removed id was :: rest.2)
  | count topic next, s => do
    let n := s.set.count topic
    let rest ← (next n).run emitting s
    some (rest.1, .counted topic n :: rest.2)
  | clear next, s => do
    let rest ← next.run emitting { s with set := s.set.clear }
    some (rest.1, .cleared :: rest.2)
  | emit changes next, s => do
    let r ← emitting s changes
    let rest ← next.run emitting r.1
    some (rest.1, .emitted changes r.2 :: rest.2)
  | look next, s => (next s.known).run emitting s
  | note known next, s => next.run emitting { s with known }

end Conduct

/-! ## calls -/

section

variable (call : Listener ρ → List Change → Stage σ ρ → Option (Stage σ ρ × List (Deed ρ)))

/-- Calls the listeners on a topic, one after the other, among those of a list. -/
def callOn (topic : Topic) (changes : List Change) :
    List (Listener ρ) → Stage σ ρ → Option (Stage σ ρ × List (Calling ρ))
  | [], s => some (s, [])
  | l :: ls, s =>
    if l.topic = topic then do
      let r ← call l changes s
      let rest ← callOn topic changes ls r.1
      some (rest.1, .node l changes r.2 :: rest.2)
    else callOn topic changes ls s

/-- Calls, for one change after the other, the listeners on its flag. -/
def callEach (ls : List (Listener ρ)) :
    List Change → Stage σ ρ → Option (Stage σ ρ × List (Calling ρ))
  | [], s => some (s, [])
  | c :: cs, s => do
    let r ← callOn call (.flag c.name) [c] ls s
    let rest ← callEach ls cs r.1
    some (rest.1, r.2 ++ rest.2)

end

/-- One emission.  The list of the listeners is taken when it begins.  There is no result if
emissions nest deeper than `depth`. -/
def emission (react : ρ → List Change → Conduct σ ρ) :
    Nat → Stage σ ρ → List Change → Option (Stage σ ρ × List (Calling ρ))
  | 0, _, _ => none
  | depth + 1, s, changes =>
    if changes = [] then some (s, [])
    else do
      let ls := s.set.listeners
      let call := fun l told s => (react l.role told).run (emission react depth) s
      let r ← callEach call ls changes s
      let rest ← callOn call .anyChange changes ls r.1
      some (rest.1, r.2 ++ rest.2)

/-! ## the order of time -/

inductive Moment (ρ : Type) where
  | added (l : Listener ρ)
  | removed (id : ListenerId) (was : Bool)
  | counted (topic : Topic) (n : Nat)
  | cleared
  /-- an emission begins; `own` are the calls that it makes itself -/
  | emitted (changes : List Change) (own : List (Listener ρ × List Change))
  | called (l : Listener ρ) (changes : List Change)

mutual

def Deed.moments : Deed ρ → List (Moment ρ)
  | .added l => [.added l]
  | .removed id was => [.removed id was]
  | .counted topic n => [.counted topic n]
  | .cleared => [.cleared]
  | .emitted changes calls => .emitted changes (calls.map Calling.own) :: Calling.allMoments calls

def Calling.moments : Calling ρ → List (Moment ρ)
  | .node l changes during => .called l changes :: Deed.allMoments during

def Deed.allMoments : List (Deed ρ) → List (Moment ρ)
  | [] => []
  | d :: ds => d.moments ++ Deed.allMoments ds

def Calling.allMoments : List (Calling ρ) → List (Moment ρ)
  | [] => []
  | k :: ks => k.moments ++ Calling.allMoments ks

end

theorem Calling.allMoments_append (as bs : List (Calling ρ)) :
    Calling.allMoments (as ++ bs) = Calling.allMoments as ++ Calling.allMoments bs := by
  induction as with
  | nil => rfl
  | cons a as ih => rw [List.cons_append, allMoments, allMoments, ih, List.append_assoc]

end FeatureFlags
