/-!
Sorting that closed terms can be evaluated with. It goes as `List.mergeSort` does, which recurses over
proofs that do not evaluate.
-/

namespace DataReach

def mergeBy (le : α → α → Bool) : List α → List α → List α
  | [], ys => ys
  | x :: xs, [] => x :: xs
  | x :: xs, y :: ys =>
    if le x y then x :: mergeBy le xs (y :: ys) else y :: mergeBy le (x :: xs) ys
termination_by xs ys => xs.length + ys.length

def sortBy (le : α → α → Bool) : List α → List α
  | [] => []
  | [x] => [x]
  | x :: y :: rest =>
    let half := (rest.length + 3) / 2
    mergeBy le (sortBy le ((x :: y :: rest).take half)) (sortBy le ((x :: y :: rest).drop half))
termination_by xs => xs.length
decreasing_by all_goals simp only [List.length_take, List.length_drop, List.length_cons]; omega

end DataReach
