/-! # Kinds of nodes

Every node may name the kind of resource that it stands for. The kind decides the depth at which
the node is drawn.
-/

namespace Diorama

inductive NodeKind where
  | deployment
  | service
  | daemonSet
  | pod
  | configMap
  | ingress
  | statefulSet
  | cronJob
deriving DecidableEq, Repr

/-- The layers of a scene, one behind the other. -/
inductive DepthBand where
  | workload
  | service
  | neutral
deriving DecidableEq, Repr

namespace NodeKind

/-- All kinds, in the order in which their keywords are tried. -/
def all : List NodeKind :=
  [.deployment, .service, .daemonSet, .pod, .configMap, .ingress, .statefulSet, .cronJob]

def keyword : NodeKind → String
  | .deployment => "Deployment"
  | .service => "Service"
  | .daemonSet => "DaemonSet"
  | .pod => "Pod"
  | .configMap => "ConfigMap"
  | .ingress => "Ingress"
  | .statefulSet => "StatefulSet"
  | .cronJob => "CronJob"

def band : NodeKind → DepthBand
  | .deployment | .daemonSet | .pod | .statefulSet | .cronJob => .workload
  | .service => .service
  | .configMap | .ingress => .neutral

end NodeKind

end Diorama
